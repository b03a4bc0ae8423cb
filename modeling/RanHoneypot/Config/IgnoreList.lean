import RanHoneypot.Net.Netip

/-!
# The ignore list

`MatchesPrefixes` of `config.go`, which decides whether a peer address is on the list of sources that
the honeypot serves but never reports.
-/

namespace RanHoneypot.Config

/-- Whether the textual address is inside any prefix. A zone is dropped and an IPv4-mapped address is
unmapped first; texts that do not parse never match. -/
def matchesPrefixes (net : Netip) (prefixes : List Prefix) (ip : String) : Bool :=
  if prefixes.length = 0 then false
  else
    match net.parseAddr ip with
    | none => false
    | some addr => prefixes.any fun range ↦ range.contains addr.dropZone.unmap

theorem matchesPrefixes_of_parse {net : Netip} {ip : String} {addr : Addr}
    (hparse : net.parseAddr ip = some addr) (prefixes : List Prefix) :
    matchesPrefixes net prefixes ip = prefixes.any fun range ↦ range.contains addr.dropZone.unmap := by
  unfold matchesPrefixes
  split
  · next hempty => rw [List.eq_nil_of_length_eq_zero hempty, List.any_nil]
  · rw [hparse]

end RanHoneypot.Config
