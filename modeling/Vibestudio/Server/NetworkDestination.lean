import Mathlib
import Vibestudio.Js.Map
import Vibestudio.Js.Value
import Vibestudio.Shared.ResourceScope

/-!
# Network destinations

`src/server/services/networkDestination.ts`: the addresses of a host that a request may connect to. They are vetted
once, and a connection looks them up in the snapshot only.

The address parser and `BlockList` of Node are a parameter (`NodeNet`). An IPv4 address has one value with the IPv6
address that it is mapped to (`IpAddress.value`), so a rule of either family applies to both forms. Lower casing is a
parameter too. The host of a URL, the answer of the resolver and the state of the signal are arguments.
-/

namespace Vibestudio.Server

open Js Shared

inductive IpAddress where
  | v4 (bits : BitVec 32)
  | v6 (bits : BitVec 128)
  deriving DecidableEq

namespace IpAddress

def family : IpAddress → ℕ
  | .v4 _ => 4
  | .v6 _ => 6

/-- The 128 bits of the address. An IPv4 address is `::ffff:a.b.c.d`. -/
def value : IpAddress → ℕ
  | .v4 bits => 0xffff * 2 ^ 32 + bits.toNat
  | .v6 bits => bits.toNat

def ofOctets (a b c d : ℕ) : IpAddress := .v4 (BitVec.ofNat 32 (((a * 256 + b) * 256 + c) * 256 + d))

/-- The address whose first two groups are given, and whose others are zero. -/
def ofGroups (a b : ℕ) : IpAddress := .v6 (BitVec.ofNat 128 ((a * 2 ^ 16 + b) * 2 ^ 96))

end IpAddress

/-- A rule of a block list: a subnet, or a single address. -/
structure Subnet where
  address : IpAddress
  prefixLength : ℕ
  deriving DecidableEq

namespace Subnet

/-- The length of the prefix of the value. -/
def bits (subnet : Subnet) : ℕ :=
  match subnet.address with
  | .v4 _ => 96 + subnet.prefixLength
  | .v6 _ => subnet.prefixLength

/-- The value begins with the prefix of the subnet. -/
def Contains (subnet : Subnet) (value : ℕ) : Prop :=
  value / 2 ^ (128 - subnet.bits) = subnet.address.value / 2 ^ (128 - subnet.bits)

instance (subnet : Subnet) (value : ℕ) : Decidable (subnet.Contains value) := inferInstanceAs (Decidable (_ = _))

/-- `addAddress`. -/
def single (address : IpAddress) : Subnet :=
  ⟨address, match address with | .v4 _ => 32 | .v6 _ => 128⟩

end Subnet

/-- What is used of Node: `isIP` and `BlockList.prototype.check`, and how they parse. `check` throws when the text is no
address, which its caller passes on: that is a refusal too, and it is false here. -/
structure NodeNet where
  parse : JsString → Option IpAddress
  isIP : JsString → ℕ
  check : List Subnet → JsString → ℕ → Bool
  isIP_eq : ∀ text, isIP text = (parse text).elim 0 IpAddress.family
  check_eq : ∀ rules text address, parse text = some address →
    check rules text address.family = decide (∃ rule ∈ rules, rule.Contains address.value)
  check_none : ∀ rules text family, parse text = none → check rules text family = false

/-! ## The rules -/

def nonPublic : List Subnet :=
  [⟨.ofOctets 0 0 0 0, 8⟩, ⟨.ofOctets 10 0 0 0, 8⟩, ⟨.ofOctets 100 64 0 0, 10⟩, ⟨.ofOctets 127 0 0 0, 8⟩,
    ⟨.ofOctets 169 254 0 0, 16⟩, ⟨.ofOctets 172 16 0 0, 12⟩, ⟨.ofOctets 192 0 0 0, 24⟩, ⟨.ofOctets 192 0 2 0, 24⟩,
    ⟨.ofOctets 192 88 99 0, 24⟩, ⟨.ofOctets 192 168 0 0, 16⟩, ⟨.ofOctets 198 18 0 0, 15⟩, ⟨.ofOctets 198 51 100 0, 24⟩,
    ⟨.ofOctets 203 0 113 0, 24⟩, ⟨.ofOctets 224 0 0 0, 4⟩, ⟨.ofOctets 240 0 0 0, 4⟩,
    ⟨.ofGroups 0x2001 0, 23⟩, ⟨.ofGroups 0x2001 0xdb8, 32⟩, ⟨.ofGroups 0x2002 0, 16⟩, ⟨.ofGroups 0x3fff 0, 20⟩]

def globalV6 : List Subnet := [⟨.ofGroups 0x2000 0, 3⟩]

def mappedV4 : List Subnet := [⟨.v6 (BitVec.ofNat 128 (0xffff * 2 ^ 32)), 96⟩]

def loopback : List Subnet := [⟨.ofOctets 127 0 0 0, 8⟩, .single (.v6 1)]

inductive NetworkEndpointAuthority where
  | publicNetwork
  | internalLoopback (origin : JsString)
  deriving DecidableEq

structure LookupAddress where
  address : JsString
  family : ℕ
  deriving DecidableEq

inductive NetworkError where
  | denied (message : JsString)
  | failed (message : JsString)
  deriving DecidableEq

variable (toLowerCase : JsString → JsString)

/-- `%`. -/
def percent : CodeUnit := 37

def networkHostname (hostname : JsString) : Except NetworkError JsString :=
  let value := if hostname.head? = some 91 ∧ hostname.getLast? = some 93 then (hostname.drop 1).dropLast else hostname
  if value = [] ∨ percent ∈ value then .error (.denied (lit "Invalid network hostname"))
  else .ok (toLowerCase value)

variable (net : NodeNet)

/-- `local.split("%")[0]`. -/
def bareAddress (address : JsString) : JsString := address.takeWhile fun c ↦ decide (c ≠ percent)

/-- The block list of the host's own addresses. -/
def hostRules (hostAddresses : List JsString) : List Subnet :=
  (hostAddresses.filterMap fun address ↦ net.parse (bareAddress address)).map Subnet.single

def isPublicNetworkAddress (address : JsString) (hostAddresses : List JsString) : Bool :=
  let family := net.isIP address
  if family = 0 ∨ percent ∈ address then false
  else if net.check nonPublic address family then false
  else if family = 6 ∧ net.check globalV6 address family = false ∧ net.check mappedV4 address family = false then false
  else !net.check (hostRules net hostAddresses) address family

/-- What a later connection asks for. `family` is a name or a number, and zero is any. -/
inductive LookupFamily where
  | IPv4
  | IPv6
  | number (family : ℕ)
  deriving DecidableEq

def LookupFamily.toNat : LookupFamily → ℕ
  | .IPv4 => 4
  | .IPv6 => 6
  | .number family => family

structure LookupOptions where
  family : Option LookupFamily
  all : Bool

inductive LookupAnswer where
  | all (addresses : List LookupAddress)
  | one (address : LookupAddress)
  deriving DecidableEq

def LookupAnswer.addresses : LookupAnswer → List LookupAddress
  | .all addresses => addresses
  | .one address => [address]

structure NetworkDestination where
  hostname : JsString
  addresses : List LookupAddress
  deriving DecidableEq

/-- `lookup`, when the signal is aborted or not. -/
def NetworkDestination.lookup (destination : NetworkDestination) (aborted : Bool) (requestedHostname : JsString)
    (options : LookupOptions) : Except NetworkError LookupAnswer :=
  if aborted ∨ networkHostname toLowerCase requestedHostname ≠ .ok destination.hostname then
    .error (.failed (lit "Network destination is no longer authorized"))
  else
    let family := options.family.elim 0 LookupFamily.toNat
    let candidates := if family = 0 then destination.addresses
      else destination.addresses.filter fun entry ↦ decide (entry.family = family)
    match candidates with
    | [] => .error (.failed (lit "No authorized address for the requested family"))
    | first :: _ => .ok (if options.all then .all candidates else .one first)

/-- The address is in the space that the authority is for. -/
def authorizedAddress (authority : NetworkEndpointAuthority) (hostAddresses : List JsString) (entry : LookupAddress) :
    Bool :=
  decide (net.isIP entry.address = entry.family) && match authority with
    | .internalLoopback _ => net.check loopback entry.address (if entry.family = 4 then 4 else 6)
    | .publicNetwork => isPublicNetworkAddress net entry.address hostAddresses

/-- What the resolver answers, before its deadline, and whether the signal is aborted at the start and after it. -/
structure HostResolution where
  abortedBefore : Bool
  answer : Except NetworkError (List LookupAddress)
  abortedAfter : Bool

def abortError : NetworkError := .failed (lit "This operation was aborted")

def resolveNetworkDestination (target : Url) (authority : NetworkEndpointAuthority) (resolution : HostResolution)
    (hostAddresses : List JsString) : Except NetworkError NetworkDestination :=
  if resolution.abortedBefore then .error abortError
  else (networkHostname toLowerCase target.hostname).bind fun hostname ↦
    let family := net.isIP hostname
    (if family = 0 then resolution.answer else .ok [⟨hostname, family⟩]).bind fun addresses ↦
      if resolution.abortedAfter then .error abortError
      else if addresses = [] then .error (.failed (lit "Network destination has no addresses"))
      else if authority ≠ .publicNetwork ∧ authority ≠ .internalLoopback target.origin then
        .error (.denied (lit "Internal endpoint authority does not match destination"))
      else if addresses.all (authorizedAddress net authority hostAddresses) then .ok ⟨hostname, addresses⟩
      else .error (.denied (lit "Network destination is outside the authorized address space"))

/-! ## What is admitted -/

/-- Two texts of one address: of either family, in any notation. -/
def SameAddress (x y : JsString) : Prop :=
  ∃ a b, net.parse x = some a ∧ net.parse y = some b ∧ a.value = b.value

/-- In the address space that the rules leave open, and not an address of the host. -/
def PublicValue (hostAddresses : List JsString) (value : ℕ) : Prop :=
  (∀ rule ∈ nonPublic, ¬ rule.Contains value) ∧ (∃ rule ∈ globalV6 ++ mappedV4, rule.Contains value) ∧
    ∀ address ∈ hostAddresses, ∀ own, net.parse (bareAddress address) = some own → own.value ≠ value

variable {net : NodeNet} {toLowerCase : JsString → JsString}

/-- An IPv4 address is in the mapped subnet. -/
theorem mappedV4_contains (bits : BitVec 32) : ∃ rule ∈ mappedV4, rule.Contains (IpAddress.v4 bits).value := by
  refine ⟨_, List.mem_cons_self, ?_⟩
  have h := bits.isLt
  change (0xffff * 2 ^ 32 + bits.toNat) / 2 ^ 32 = (BitVec.ofNat 128 (0xffff * 2 ^ 32)).toNat / 2 ^ 32
  rw [BitVec.toNat_ofNat]
  omega

theorem single_contains (a b : IpAddress) : (Subnet.single a).Contains b.value ↔ b.value = a.value := by
  have hbits : (Subnet.single a).bits = 128 := by
    cases a <;> rfl
  rw [Subnet.Contains, hbits, Nat.sub_self, pow_zero, Nat.div_one, Nat.div_one]
  rfl

theorem check_eq_false {rules : List Subnet} {text : JsString} {a : IpAddress} (ha : net.parse text = some a) :
    net.check rules text a.family = false ↔ ∀ rule ∈ rules, ¬ rule.Contains a.value := by
  rw [net.check_eq rules text a ha, decide_eq_false_iff_not]
  push Not
  rfl

theorem hostRules_apart {hostAddresses : List JsString} {a : IpAddress} :
    (∀ rule ∈ hostRules net hostAddresses, ¬ rule.Contains a.value) ↔
      ∀ address ∈ hostAddresses, ∀ own, net.parse (bareAddress address) = some own → own.value ≠ a.value := by
  constructor
  · intro h address hmem own hown heq
    have hrule := h (.single own) (List.mem_map_of_mem (List.mem_filterMap.mpr ⟨address, hmem, hown⟩))
    exact hrule ((single_contains own a).mpr heq.symm)
  · intro h rule hmem hcontains
    obtain ⟨own, hown, rfl⟩ := List.mem_map.mp hmem
    obtain ⟨address, hmem, hparse⟩ := List.mem_filterMap.mp hown
    exact h address hmem own hparse ((single_contains own a).mp hcontains).symm

/-- **Admission depends on the value only**: an address is public when its value is in the open space and is not one of
the host's. The scope of an address is not allowed. -/
theorem isPublicNetworkAddress_iff {hostAddresses : List JsString} {text : JsString} {a : IpAddress}
    (ha : net.parse text = some a) : isPublicNetworkAddress net text hostAddresses = true ↔
      percent ∉ text ∧ PublicValue net hostAddresses a.value := by
  have hfamily : net.isIP text = a.family := by rw [net.isIP_eq, ha, Option.elim_some]
  have hne : a.family ≠ 0 := by cases a <;> exact nofun
  have hspace : ¬ (a.family = 6 ∧ net.check globalV6 text a.family = false ∧ net.check mappedV4 text a.family = false) ↔
      ∃ rule ∈ globalV6 ++ mappedV4, rule.Contains a.value := by
    cases a with
    | v4 bits =>
      obtain ⟨rule, hmem, hcontains⟩ := mappedV4_contains bits
      exact iff_of_true (fun h ↦ nomatch h.1) ⟨rule, List.mem_append_right _ hmem, hcontains⟩
    | v6 bits =>
      rw [check_eq_false ha, check_eq_false ha]
      constructor
      · intro h
        by_contra hnone
        push Not at hnone
        exact h ⟨rfl, fun rule hmem ↦ hnone rule (List.mem_append_left _ hmem),
          fun rule hmem ↦ hnone rule (List.mem_append_right _ hmem)⟩
      · rintro ⟨rule, hmem, hcontains⟩ ⟨-, hglobal, hmapped⟩
        rcases List.mem_append.mp hmem with hmem | hmem
        · exact hglobal rule hmem hcontains
        · exact hmapped rule hmem hcontains
  unfold isPublicNetworkAddress PublicValue
  rw [hfamily, ← hspace, ← hostRules_apart, ← check_eq_false ha, ← check_eq_false ha]
  dsimp only
  by_cases hpercent : percent ∈ text
  · rw [if_pos (.inr hpercent)]
    exact iff_of_false nofun fun h ↦ h.1 hpercent
  · rw [if_neg fun h ↦ h.elim hne hpercent]
    cases net.check nonPublic text a.family
    · rw [if_neg nofun]
      split_ifs with houtside
      · exact iff_of_false nofun fun h ↦ h.2.2.1 houtside
      · rw [Bool.not_eq_true']
        exact ⟨fun h ↦ ⟨hpercent, rfl, houtside, h⟩, fun h ↦ h.2.2.2⟩
    · rw [if_pos rfl]
      exact iff_of_false nofun fun h ↦ nomatch h.2.1

theorem parse_of_isPublic {hostAddresses : List JsString} {text : JsString}
    (h : isPublicNetworkAddress net text hostAddresses = true) : ∃ a, net.parse text = some a := by
  cases ha : net.parse text with
  | some a => exact ⟨a, rfl⟩
  | none =>
    have hfamily : net.isIP text = 0 := by rw [net.isIP_eq, ha, Option.elim_none]
    unfold isPublicNetworkAddress at h
    dsimp only at h
    rw [hfamily, if_pos (.inl rfl)] at h
    exact nomatch h

/-- **Every textual form** of an address is admitted when one is. -/
theorem isPublicNetworkAddress_congr (hostAddresses : List JsString) {x y : JsString} (h : SameAddress net x y)
    (hx : percent ∉ x) (hy : percent ∉ y) :
    isPublicNetworkAddress net x hostAddresses = isPublicNetworkAddress net y hostAddresses := by
  obtain ⟨a, b, ha, hb, heq⟩ := h
  rw [Bool.eq_iff_iff, isPublicNetworkAddress_iff ha, isPublicNetworkAddress_iff hb, heq]
  exact and_congr_left fun _ ↦ iff_of_true hx hy

/-! ## The snapshot -/

/-- What an address of the snapshot is known to be. -/
def Vetted (net : NodeNet) (target : Url) (authority : NetworkEndpointAuthority) (hostAddresses : List JsString)
    (entry : LookupAddress) : Prop :=
  ∃ a, net.parse entry.address = some a ∧ entry.family = a.family ∧
    match authority with
    | .internalLoopback origin => origin = target.origin ∧ ∃ rule ∈ loopback, rule.Contains a.value
    | .publicNetwork => PublicValue net hostAddresses a.value ∧ ∀ text, SameAddress net entry.address text →
        percent ∉ text → isPublicNetworkAddress net text hostAddresses = true

theorem authorizedAddress_vetted {target : Url} {authority : NetworkEndpointAuthority} {hostAddresses : List JsString}
    {entry : LookupAddress} (horigin : authority = .publicNetwork ∨ authority = .internalLoopback target.origin)
    (h : authorizedAddress net authority hostAddresses entry = true) :
    Vetted net target authority hostAddresses entry := by
  obtain ⟨hfamily, hspace⟩ := Bool.and_eq_true_iff.mp h
  have hfamily := of_decide_eq_true hfamily
  rcases horigin with rfl | rfl
  · obtain ⟨a, ha⟩ := parse_of_isPublic hspace
    obtain ⟨hpercent, hpublic⟩ := (isPublicNetworkAddress_iff ha).mp hspace
    refine ⟨a, ha, ?_, hpublic, fun text hsame htext ↦ ?_⟩
    · rw [← hfamily, net.isIP_eq, ha, Option.elim_some]
    · rw [← isPublicNetworkAddress_congr hostAddresses hsame hpercent htext]
      exact hspace
  · dsimp only at hspace
    cases ha : net.parse entry.address with
    | none =>
      rw [net.check_none _ _ _ ha] at hspace
      exact nomatch hspace
    | some a =>
      have hentry : entry.family = a.family := by rw [← hfamily, net.isIP_eq, ha, Option.elim_some]
      have hasked : (if entry.family = 4 then 4 else 6) = a.family := by
        rw [hentry]
        cases a <;> rfl
      rw [hasked, net.check_eq _ _ a ha] at hspace
      exact ⟨a, ha, hentry, rfl, of_decide_eq_true hspace⟩

theorem lookup_eq_ok {destination : NetworkDestination} {aborted : Bool} {hostname : JsString} {options : LookupOptions}
    {answer : LookupAnswer} (h : destination.lookup toLowerCase aborted hostname options = .ok answer) :
    aborted = false ∧ networkHostname toLowerCase hostname = .ok destination.hostname ∧
      ∀ entry ∈ answer.addresses, entry ∈ destination.addresses := by
  unfold NetworkDestination.lookup at h
  by_cases hrefused : aborted ∨ networkHostname toLowerCase hostname ≠ .ok destination.hostname
  · rw [if_pos hrefused] at h
    exact nomatch h
  rw [if_neg hrefused] at h
  push Not at hrefused
  refine ⟨Bool.eq_false_iff.mpr hrefused.1, hrefused.2, ?_⟩
  have hcandidates : ∀ entry ∈ (if options.family.elim 0 LookupFamily.toNat = 0 then destination.addresses
      else destination.addresses.filter fun entry ↦ decide (entry.family = options.family.elim 0 LookupFamily.toNat)),
      entry ∈ destination.addresses := by
    intro entry hmem
    split_ifs at hmem
    · exact hmem
    · exact List.mem_of_mem_filter hmem
  dsimp only at h
  generalize (if options.family.elim 0 LookupFamily.toNat = 0 then destination.addresses
    else destination.addresses.filter fun entry ↦ decide (entry.family = options.family.elim 0 LookupFamily.toNat)) =
    candidates at h hcandidates
  cases candidates with
  | nil => exact nomatch h
  | cons first rest =>
    obtain rfl := Except.ok.inj h
    intro entry hmem
    by_cases hall : options.all
    · rw [if_pos hall] at hmem
      exact hcandidates entry hmem
    rw [if_neg hall] at hmem
    obtain rfl := List.mem_singleton.mp hmem
    exact hcandidates entry List.mem_cons_self

theorem resolve_eq_ok {target : Url} {authority : NetworkEndpointAuthority} {resolution : HostResolution}
    {hostAddresses : List JsString} {destination : NetworkDestination}
    (h : resolveNetworkDestination toLowerCase net target authority resolution hostAddresses = .ok destination) :
    (authority = .publicNetwork ∨ authority = .internalLoopback target.origin) ∧
      networkHostname toLowerCase target.hostname = .ok destination.hostname ∧
      ∀ entry ∈ destination.addresses, authorizedAddress net authority hostAddresses entry = true := by
  unfold resolveNetworkDestination at h
  by_cases hbefore : resolution.abortedBefore
  · rw [if_pos hbefore] at h
    exact nomatch h
  rw [if_neg hbefore] at h
  obtain ⟨hostname, hhostname, h⟩ := bind_eq_ok.mp h
  obtain ⟨addresses, -, h⟩ := bind_eq_ok.mp h
  split_ifs at h with _ _ horigin hall
  obtain rfl := Except.ok.inj h
  refine ⟨?_, hhostname, List.all_eq_true.mp hall⟩
  by_contra hne
  exact horigin (not_or.mp hne)

/-- **A destination stays inside its snapshot.** What is resolved for a target is vetted, each address by its value and
so in every form of it, and a lookup answers from the snapshot, for the vetted hostname, while the signal is not
aborted. -/
theorem network_destination (toLowerCase : JsString → JsString) (net : NodeNet) (target : Url)
    (authority : NetworkEndpointAuthority) (resolution : HostResolution) (hostAddresses : List JsString)
    (destination : NetworkDestination)
    (h : resolveNetworkDestination toLowerCase net target authority resolution hostAddresses = .ok destination) :
    networkHostname toLowerCase target.hostname = .ok destination.hostname ∧
    (∀ entry ∈ destination.addresses, Vetted net target authority hostAddresses entry) ∧
    (∀ x y, SameAddress net x y → percent ∉ x → percent ∉ y →
      isPublicNetworkAddress net x hostAddresses = isPublicNetworkAddress net y hostAddresses) ∧
    ∀ aborted hostname options answer, destination.lookup toLowerCase aborted hostname options = .ok answer →
      aborted = false ∧ networkHostname toLowerCase hostname = networkHostname toLowerCase target.hostname ∧
        ∀ entry ∈ answer.addresses, entry ∈ destination.addresses := by
  obtain ⟨horigin, hhostname, haddresses⟩ := resolve_eq_ok h
  refine ⟨hhostname, fun entry hmem ↦ authorizedAddress_vetted horigin (haddresses entry hmem),
    fun x y ↦ isPublicNetworkAddress_congr hostAddresses, fun aborted hostname options answer hanswer ↦ ?_⟩
  obtain ⟨haborted, hsame, hmem⟩ := lookup_eq_ok hanswer
  exact ⟨haborted, hsame.trans hhostname.symm, hmem⟩

/-! ## A resolved host -/

/-- Four addresses, one of them in two forms, and how they are written. -/
def writtenAddresses : JsMap JsString IpAddress :=
  [(lit "93.184.216.34", .ofOctets 93 184 216 34),
    (lit "::ffff:5db8:d822", .v6 (BitVec.ofNat 128 0xffff5db8d822)),
    (lit "192.168.1.5", .ofOctets 192 168 1 5), (lit "127.0.0.1", .ofOctets 127 0 0 1), (lit "::1", .v6 1)]

def tableNet : NodeNet where
  parse text := writtenAddresses.get text
  isIP text := (writtenAddresses.get text).elim 0 IpAddress.family
  check rules text family := (writtenAddresses.get text).any fun address ↦
    decide (address.family = family) && decide (∃ rule ∈ rules, rule.Contains address.value)
  isIP_eq _ := rfl
  check_eq rules text address h := by rw [h, Option.any_some, decide_eq_true rfl, Bool.true_and]
  check_none _ _ _ h := by rw [h, Option.any_none]

/-- The host `example.test`, which has one address, asked for from a host with another. -/
theorem network_destination_example : ∃ destination : NetworkDestination,
    destination.addresses = [⟨lit "93.184.216.34", 4⟩] ∧
    (∀ entry ∈ destination.addresses, Vetted tableNet ⟨lit "https:", lit "https://example.test", lit "example.test"⟩
      .publicNetwork [lit "192.168.1.5"] entry) ∧
    isPublicNetworkAddress tableNet (lit "::ffff:5db8:d822") [lit "192.168.1.5"] = true := by
  have hresolved : resolveNetworkDestination id tableNet
      ⟨lit "https:", lit "https://example.test", lit "example.test"⟩ .publicNetwork
      ⟨false, .ok [⟨lit "93.184.216.34", 4⟩], false⟩ [lit "192.168.1.5"] =
        .ok ⟨lit "example.test", [⟨lit "93.184.216.34", 4⟩]⟩ := by decide +kernel
  obtain ⟨-, hvetted, hforms, -⟩ := network_destination id tableNet _ _ _ _ _ hresolved
  refine ⟨_, rfl, hvetted, ?_⟩
  have hsame : SameAddress tableNet (lit "93.184.216.34") (lit "::ffff:5db8:d822") :=
    ⟨.ofOctets 93 184 216 34, .v6 (BitVec.ofNat 128 0xffff5db8d822), by decide +kernel, by decide +kernel,
      by decide +kernel⟩
  rw [← hforms _ _ hsame (by decide +kernel) (by decide +kernel)]
  decide +kernel

end Vibestudio.Server
