import RanHoneypot.Config.Listen

/-!
# Conflicts of listen addresses

What `Load` guarantees about the listeners of a configuration that it accepts. The check claims every
address for its trap and rejects an address that another trap has claimed, with the port as written.
Addresses of one trap are not compared with each other, and neither are different spellings of a port.
-/

namespace RanHoneypot.Config

open GoText Utf8 List ListenConfig

/-! ## Validated address lists -/

variable {c : ListenConfig}

variable {names : List Text} {getenv : Text → Text}

/-- The part is a host and a port from 1 to 65535. -/
def Bindable (part : Text) : Prop :=
  ∃ host port p, splitHostPort part = .ok (host, port) ∧ atoi port = some p ∧ 1 ≤ p ∧ p ≤ 65535

theorem validateParts_bindable {variableName : Text} {parts : List Text} {n : ℕ}
    (hvalid : validateParts variableName parts n = .ok ()) :
    ∀ raw ∈ parts, trimSpace raw ≠ [] → Bindable (trimSpace raw) := by
  induction parts generalizing n with
  | nil => simp
  | cons first rest ih =>
    simp only [validateParts] at hvalid
    intro raw hraw hpart
    split at hvalid
    · next hblank =>
      rcases mem_cons.mp hraw with rfl | hrest
      · exact absurd hblank hpart
      · exact ih hvalid raw hrest hpart
    · split at hvalid
      · cases hvalid
      · next host port hsplit =>
        split at hvalid
        · cases hvalid
        · next p hport =>
          split at hvalid
          · cases hvalid
          · next hrange =>
            rcases mem_cons.mp hraw with rfl | hrest
            · exact ⟨host, port, p, hsplit, hport, by omega, by omega⟩
            · exact ih hvalid raw hrest hpart

/-- Every part of the list can be bound. -/
def ListBindable (raw : Text) : Prop := ∀ part ∈ addrParts raw, Bindable part

theorem validateAddrList_bindable {variableName raw : Text}
    (hvalid : validateAddrList variableName raw = .ok ()) : ListBindable raw := by
  intro part hpart
  rcases mem_filter.mp hpart with ⟨hmem, hne⟩
  rcases mem_map.mp hmem with ⟨text, htext, rfl⟩
  exact validateParts_bindable hvalid _ htext (by simpa using hne)

/-- Every default passes the check of the address lists. -/
theorem defaultPorts_valid : ∀ entry ∈ defaultPorts, validateAddrList [] entry.2 = .ok () := by
  decide +kernel

theorem default_bindable (name : Text) : ListBindable ((tableLookup defaultPorts name).getD []) := by
  unfold tableLookup
  cases hfind : defaultPorts.find? fun entry ↦ entry.1 = name with
  | none =>
    have hempty : addrParts [] = [] := by decide
    intro part hpart
    exact absurd (hempty ▸ hpart) not_mem_nil
  | some entry =>
    exact validateAddrList_bindable (defaultPorts_valid _ (mem_of_find?_eq_some hfind))

/-! ## The addresses after `Load` -/

/-- What the loop over the traps has read for `names`. -/
structure Read (names : List Text) (c : ListenConfig) : Prop where
  addrs : ∀ name ∈ names, name ≠ bannerTrap → ∃ raw, c.addrs.lookup name = some raw
  bindable : ∀ name raw, c.addrs.lookup name = some raw → ListBindable raw
  services : PortsDistinct c.bannerServices

theorem read_empty (traps : List Text) : Read [] ⟨traps, ∅, []⟩ where
  addrs := by simp
  bindable := by simp
  services := ⟨by simp, by simp⟩

/-- One more trap has its address list. -/
theorem Read.insert (h : Read names c) {name raw : Text} (hraw : ListBindable raw) :
    Read (names ++ [name]) { c with addrs := c.addrs.insert name raw } where
  addrs := by
    intro other hother hbanner
    by_cases hown : other = name
    · exact ⟨raw, by rw [hown, AList.lookup_insert]⟩
    · rw [AList.lookup_insert_ne hown]
      apply h.addrs _ _ hbanner
      rcases mem_append.mp hother with hold | hlast
      · exact hold
      · exact absurd (mem_singleton.mp hlast) hown
  bindable := by
    intro other text hlookup
    by_cases hown : other = name
    · rw [hown, AList.lookup_insert, Option.some.injEq] at hlookup
      exact hlookup ▸ hraw
    · rw [AList.lookup_insert_ne hown] at hlookup
      exact h.bindable _ _ hlookup
  services := h.services

theorem Read.loadAddr {c' : ListenConfig} (h : Read names c) {name : Text}
    (hload : loadAddr getenv c name = .ok c') : Read (names ++ [name]) c' ∧ c'.traps = c.traps := by
  unfold Config.loadAddr at hload
  split at hload
  · next hbanner =>
    split at hload
    · cases hload
    · next services hservices =>
      rw [← Except.ok.inj hload]
      refine ⟨⟨?_, h.bindable, parseBannerServices_distinct hservices⟩, rfl⟩
      intro other hother hne
      apply h.addrs _ _ hne
      rcases mem_append.mp hother with hold | hlast
      · exact hold
      · exact absurd ((mem_singleton.mp hlast).trans hbanner) hne
  · split at hload
    · split at hload
      · cases hload
      · next hvalid =>
        rw [← Except.ok.inj hload]
        exact ⟨h.insert (validateAddrList_bindable hvalid), rfl⟩
    · split at hload
      · cases hload
      · rw [← Except.ok.inj hload]
        exact ⟨h.insert (default_bindable _), rfl⟩

theorem Read.loadAddrs {rest : List Text} {c' : ListenConfig} (h : Read names c)
    (hload : loadAddrs getenv rest c = .ok c') : Read (names ++ rest) c' ∧ c'.traps = c.traps := by
  induction rest generalizing names c with
  | nil =>
    rw [← Except.ok.inj hload, append_nil]
    exact ⟨h, rfl⟩
  | cons name rest ih =>
    simp only [Config.loadAddrs] at hload
    split at hload
    · cases hload
    · next c'' hone =>
      rcases h.loadAddr hone with ⟨hread, htraps⟩
      rcases ih hread hload with ⟨hread', htraps'⟩
      rw [append_assoc] at hread'
      exact ⟨hread', htraps'.trans htraps⟩

theorem exists_of_bind_ok {ε α β : Type} {x : Except ε α} {f : α → Except ε β} {b : β}
    (hbind : (x >>= f) = .ok b) : ∃ a, x = .ok a ∧ f a = .ok b := by
  cases x with
  | error error => exact absurd hbind (by simp [bind, Except.bind])
  | ok a => exact ⟨a, rfl, hbind⟩

/-- What `Load` has checked of a configuration that it accepts. -/
theorem load_spec {checks : Checks} (hload : load checks getenv = .ok c) :
    Read c.traps c ∧ c.checkListenConflicts = .ok () := by
  rcases exists_of_bind_ok hload with ⟨_, _, hload⟩
  rcases exists_of_bind_ok hload with ⟨traps, _, hload⟩
  rcases exists_of_bind_ok hload with ⟨_, _, hload⟩
  rcases exists_of_bind_ok hload with ⟨c', haddrs, hload⟩
  rcases exists_of_bind_ok hload with ⟨_, hconflicts, hload⟩
  rcases exists_of_bind_ok hload with ⟨_, _, hload⟩
  rw [← Except.ok.inj hload]
  rcases (read_empty _).loadAddrs haddrs with ⟨hread, htraps⟩
  refine ⟨?_, hconflicts⟩
  rw [htraps]
  exact hread

/-! ## Claims -/

namespace ListenConfig

/-- A claim keeps what was claimed before, and has its own address afterwards. -/
theorem claim_spec {owner owner' : AList fun _ : Text ↦ Text} {trap host port : Text}
    (hclaim : claim owner trap host port = .ok owner') :
    owner'.lookup (claimKey trap host port) = some trap ∧
      ∀ key prev, owner.lookup key = some prev → owner'.lookup key = some prev := by
  have hkeep : (∀ prev, owner.lookup (claimKey trap host port) = some prev → prev = trap) →
      ∀ key prev, owner.lookup key = some prev →
        (owner.insert (claimKey trap host port) trap).lookup key = some prev := by
    intro hsame key prev hprev
    by_cases hkey : key = claimKey trap host port
    · rw [hkey] at hprev ⊢
      rw [AList.lookup_insert, hsame prev hprev]
    · rw [AList.lookup_insert_ne hkey, hprev]
  unfold claim at hclaim
  split at hclaim
  · next prev hprev =>
    split at hclaim
    · cases hclaim
    · next hsame =>
      rw [← Except.ok.inj hclaim]
      refine ⟨AList.lookup_insert _, hkeep ?_⟩
      intro other hother
      rw [hprev, Option.some.injEq] at hother
      rw [← hother]
      exact not_not.mp hsame
  · next hnone =>
    rw [← Except.ok.inj hclaim]
    refine ⟨AList.lookup_insert _, hkeep ?_⟩
    intro other hother
    cases hnone.symm.trans hother

/-- After the check every address belongs to the trap that claimed it. -/
theorem claimAll_spec {claims : List (Text × Text × Text)} {owner owner' : AList fun _ : Text ↦ Text}
    (hclaim : claimAll claims owner = .ok owner') :
    (∀ trap host port, (trap, host, port) ∈ claims →
        owner'.lookup (claimKey trap host port) = some trap) ∧
      ∀ key prev, owner.lookup key = some prev → owner'.lookup key = some prev := by
  induction claims generalizing owner with
  | nil =>
    rw [← Except.ok.inj hclaim]
    exact ⟨by simp, fun _ _ h ↦ h⟩
  | cons first rest ih =>
    simp only [claimAll] at hclaim
    split at hclaim
    · cases hclaim
    · next owner'' hone =>
      rcases claim_spec hone with ⟨hown, hkept⟩
      rcases ih hclaim with ⟨hrest, hkept'⟩
      refine ⟨?_, fun key prev hprev ↦ hkept' key prev (hkept key prev hprev)⟩
      intro other host' port' hmem
      rcases mem_cons.mp hmem with heq | hmem
      · rw [Prod.mk.injEq, Prod.mk.injEq] at heq
        rw [heq.1, heq.2.1, heq.2.2]
        exact hkept' _ _ hown
      · exact hrest other host' port' hmem

/-- Two claims of one address are made by one trap. -/
theorem claims_apart (hconflicts : c.checkListenConflicts = .ok ()) {trap trap' host port : Text}
    (hmem : (trap, host, port) ∈ c.claims) (hmem' : (trap', host, port) ∈ c.claims)
    (htransport : transportOf trap = transportOf trap') : trap = trap' := by
  unfold checkListenConflicts at hconflicts
  split at hconflicts
  · cases hconflicts
  · next owner hclaim =>
    have howner := (claimAll_spec hclaim).1
    have hkey : claimKey trap host port = claimKey trap' host port := by
      rw [claimKey, claimKey, htransport]
    have hfirst := howner trap host port hmem
    rw [hkey, howner trap' host port hmem', Option.some.injEq] at hfirst
    exact hfirst.symm

end ListenConfig

/-! ## Listeners -/

/-- A listener is a host and a port in range, and the check has claimed both as they are written. -/
structure Listener.Claimed (c : ListenConfig) (l : Listener) : Prop where
  claimed : ∀ host port, l.written = some (host, port) → (l.trap, host, port) ∈ c.claims
  inRange : ∃ host port, l.socket = some (host, port) ∧ 1 ≤ port ∧ port ≤ 65535

/-- An address of a list is claimed. -/
theorem claimed_of_addr {name raw part : Text} (hname : name ∈ c.traps)
    (hbanner : name ≠ bannerTrap) (hraw : c.addrs.lookup name = some raw) (hbind : ListBindable raw)
    (hpart : part ∈ addrParts raw) :
    Listener.Claimed c ⟨name, part⟩ where
  claimed := by
    intro host port hwritten
    have hclaimed : (host, port) ∈ c.claimed name := by
      rw [claimed, if_neg hbanner, hraw]
      exact mem_filterMap.mpr ⟨part, hpart, hwritten⟩
    exact mem_flatMap.mpr ⟨name, hname, mem_map.mpr ⟨_, hclaimed, rfl⟩⟩
  inRange := by
    rcases hbind part hpart with ⟨host, port, p, hsplit, hport, hlow, hhigh⟩
    refine ⟨host, p, ?_, hlow, hhigh⟩
    simp [Listener.socket, Listener.written, hsplit, Except.toOption, hport]

/-- A banner service is claimed. -/
theorem claimed_of_service {service : BannerService} (hbanner : bannerTrap ∈ c.traps)
    (hservices : PortsDistinct c.bannerServices) (hservice : service ∈ c.bannerServices) :
    Listener.Claimed c ⟨bannerTrap, joinHostPort [] (itoa service.port)⟩ where
  claimed := by
    intro host port hwritten
    have hsplit : some (([] : Text), itoa service.port) = some (host, port) := by
      rw [← hwritten, Listener.written, splitHostPort_join_itoa]
      rfl
    have hclaimed : (host, port) ∈ c.claimed bannerTrap := by
      rw [← Option.some.inj hsplit]
      exact mem_map.mpr ⟨service, hservice, rfl⟩
    exact mem_flatMap.mpr ⟨bannerTrap, hbanner, mem_map.mpr ⟨_, hclaimed, rfl⟩⟩
  inRange := by
    have hrange := hservices.range service hservice
    refine ⟨[], service.port, ?_, by omega, by omega⟩
    have hport : atoi (itoa service.port) = some (service.port : ℤ) := atoi_itoa (by omega)
    simp [Listener.socket, Listener.written, splitHostPort_join_itoa, Except.toOption, hport]

theorem Read.claimed (h : Read c.traps c) : ∀ l ∈ c.listeners, l.Claimed c := by
  intro l hl
  rcases mem_flatMap.mp hl with ⟨name, hname, hl⟩
  rcases mem_map.mp hl with ⟨addr, haddr, hl⟩
  rw [← hl]
  by_cases hbanner : name = bannerTrap
  · rw [if_pos hbanner] at haddr
    rcases mem_map.mp haddr with ⟨service, hservice, haddr⟩
    rw [← haddr, hbanner]
    exact claimed_of_service (hbanner ▸ hname) h.services hservice
  · rw [if_neg hbanner] at haddr
    rcases h.addrs name hname hbanner with ⟨raw, hraw⟩
    have htrapAddr : c.trapAddr name = raw := by rw [trapAddr, hraw]
    rw [trapAddrs, htrapAddr] at haddr
    split at haddr
    · cases haddr
    · exact claimed_of_addr hname hbanner hraw (h.bindable _ _ hraw) haddr

/-! ## Environments -/

/-- The environment that holds the given entries. -/
def environment (entries : List (String × String)) (name : Text) : Text :=
  match entries.find? fun entry ↦ ofText entry.1 = name with
  | some entry => ofText entry.2
  | none => []

/-- No check fails besides those of the listeners. -/
def Checks.passing : Checks := ⟨fun _ ↦ none, fun _ _ ↦ none, fun _ _ ↦ none⟩

/-- Two listeners that cannot both be bound: one transport, one host and one port number. -/
def Listener.Collide (l l' : Listener) : Prop :=
  l.transport = l'.transport ∧ l.socket = l'.socket ∧ l.socket.isSome

instance (l l' : Listener) : Decidable (l.Collide l') :=
  inferInstanceAs (Decidable (_ ∧ _))

def ListenConfig.CollisionFree (c : ListenConfig) : Prop :=
  c.listeners.Pairwise fun l l' ↦ ¬ l.Collide l'

instance (c : ListenConfig) : Decidable c.CollisionFree :=
  inferInstanceAs (Decidable (c.listeners.Pairwise _))

/-- An environment is accepted when the run of `Load` on it gives a configuration. -/
theorem exists_load_of_any {p : ListenConfig → Bool}
    (hrun : (load Checks.passing getenv).toOption.any p = true) :
    ∃ c, load Checks.passing getenv = .ok c ∧ p c = true := by
  cases hload : load Checks.passing getenv with
  | error error => exact absurd hrun (by simp [hload, Except.toOption])
  | ok c =>
    rw [hload] at hrun
    exact ⟨c, rfl, hrun⟩

/-- An accepted configuration gives no address to two traps: listeners of different traps differ in
the transport or in the host and the port as they are written. Every listener is a host and a port
between 1 and 65535, and no two banner services share a port. -/
theorem loaded_traps_listen_apart (checks : Checks) (getenv : Text → Text) (c : ListenConfig)
    (hload : load checks getenv = .ok c) :
    (∀ l ∈ c.listeners, ∀ l' ∈ c.listeners, l.trap ≠ l'.trap → l.transport = l'.transport →
        l.written ≠ l'.written) ∧
      (∀ l ∈ c.listeners, ∃ host port, l.socket = some (host, port) ∧ 1 ≤ port ∧ port ≤ 65535) ∧
      (c.bannerServices.map BannerService.port).Nodup := by
  rcases load_spec hload with ⟨hread, hconflicts⟩
  refine ⟨?_, fun l hl ↦ (hread.claimed l hl).inRange, hread.services.nodup⟩
  intro l hl l' hl' htrap htransport hwritten
  rcases (hread.claimed l hl).inRange with ⟨host, port, hsocket, _⟩
  rcases Option.bind_eq_some_iff.mp hsocket with ⟨addr, haddr, _⟩
  have hfirst := (hread.claimed l hl).claimed addr.1 addr.2 haddr
  have hsecond := (hread.claimed l' hl').claimed addr.1 addr.2 (hwritten ▸ haddr)
  exact htrap (claims_apart hconflicts hfirst hsecond htransport)

/-- Four traps with five listeners, on both transports. -/
def fourTraps : Text → Text :=
  environment [("RAN_TRAPS", "ssh, http,dns,banner"), ("RAN_SSH_ADDR", "10.0.0.1:2222,[::1]:2222"),
    ("RAN_DNS_ADDR", ":8080"), ("RAN_BANNER_SERVICES", "2323=telnet:login")]

theorem loaded_traps_listen_apart_four :
    ∃ c, load Checks.passing fourTraps = .ok c ∧ c.listeners.length = 5 ∧
      ∀ l ∈ c.listeners, ∀ l' ∈ c.listeners, l.trap ≠ l'.trap → l.transport = l'.transport →
        l.written ≠ l'.written := by
  have hrun : (load Checks.passing fourTraps).toOption.any
      (fun c ↦ c.listeners.length = 5) = true := by
    decide +kernel
  rcases exists_load_of_any hrun with ⟨c, hload, hlength⟩
  exact ⟨c, hload, of_decide_eq_true hlength, (loaded_traps_listen_apart _ _ c hload).1⟩

/-- An accepted environment in which two listeners collide. -/
def AcceptsCollision (getenv : Text → Text) : Prop :=
  ∃ c, load Checks.passing getenv = .ok c ∧ ¬ c.CollisionFree

theorem acceptsCollision_of_run
    (hrun : (load Checks.passing getenv).toOption.any (fun c ↦ ¬ c.CollisionFree) = true) :
    AcceptsCollision getenv := by
  rcases exists_load_of_any hrun with ⟨c, hload, hcollide⟩
  exact ⟨c, hload, of_decide_eq_true hcollide⟩

/-- `Load` accepts an address twice in one list, a trap named twice, and a port in two spellings. -/
theorem load_accepts_collisions :
    AcceptsCollision (environment [("RAN_TRAPS", "ssh"), ("RAN_SSH_ADDR", ":2222,:2222")]) ∧
      AcceptsCollision (environment [("RAN_TRAPS", "ssh,ssh")]) ∧
      AcceptsCollision (environment [("RAN_TRAPS", "ssh,http"), ("RAN_HTTP_ADDR", ":02222")]) := by
  refine ⟨acceptsCollision_of_run ?_, acceptsCollision_of_run ?_, acceptsCollision_of_run ?_⟩
  · decide +kernel
  · decide +kernel
  · decide +kernel

end RanHoneypot.Config
