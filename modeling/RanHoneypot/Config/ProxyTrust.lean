import RanHoneypot.Net.Netip

/-!
# The trusted proxies

`ProxyTrust` of `proxytrust.go`, which decides from the address of a socket whether its peer may send a
PROXY header.
-/

namespace RanHoneypot.Config

/-- The address of a socket peer as `Trusts` looks at it: a TCP address has an IP, if the bytes in it
are one, and of any other address only the host of its text matters, if the text has one. -/
inductive SocketAddr where
  | nil
  | tcp (ip : Option Addr)
  | other (host : Option String)
deriving DecidableEq

structure ProxyTrust where
  any : Bool
  prefixes : List Prefix

def matchAddr (prefixes : List Prefix) (ip : Addr) : Bool :=
  prefixes.any fun range ↦ range.contains ip.dropZone.unmap

/-- Whether the socket peer may send a header. Without a trust set nobody may. -/
def trusts (net : Netip) (trust : Option ProxyTrust) (addr : SocketAddr) : Bool :=
  match trust with
  | none => false
  | some t =>
    if t.any then true
    else if t.prefixes.length = 0 then false
    else
      match addr with
      | .nil => false
      | .tcp ip => ip.any (matchAddr t.prefixes)
      | .other host => (host.bind net.parseAddr).any (matchAddr t.prefixes)

end RanHoneypot.Config
