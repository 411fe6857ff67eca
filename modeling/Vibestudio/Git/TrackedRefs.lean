import Mathlib
import Vibestudio.ContentAddressing.CanonicalJson
import Vibestudio.Sequence.Comparator

/-!
# Tracked tags

`naturalVersionCompare` and `discoverTrackedGitCheckout` of `packages/git/src/exact-snapshot.ts`: a
tag glob selects the last of the matching refs in the natural order of versions.

The comparator is a comparison of keys. A ref is cut before the first `-` of its last path segment,
both parts are cut into maximal runs of digits and of other units, and a run is compared by its
number, if it is one, and then by its text. Keys are injective, so the comparator is a strict total
order (`naturalVersionCompare_compares`, `versionKey_injective`). A run that is padded with zeros is
told from the run without them before anything that follows is looked at, which is why
`order_of_runs_iff` has a condition on the runs in front of those it is about.
-/

namespace Vibestudio.Git

open Js ContentAddressing Sequence

/-! ## The comparator -/

structure SplitRef where
  release : JsString
  prerelease : Option JsString
  deriving DecidableEq

/-- `ref.lastIndexOf("/") + 1`. -/
def lastSegmentStart (ref : JsString) : ℕ :=
  ref.length - (ref.reverse.takeWhile fun c ↦ decide (c ≠ 47)).length

def splitPrerelease (ref : JsString) : SplitRef :=
  let start := lastSegmentStart ref
  match (ref.drop start).findIdx? fun c ↦ decide (c = 45) with
  | none => ⟨ref, none⟩
  | some i => ⟨ref.take (start + i), some (ref.drop (start + i + 1))⟩

/-- `text.match(/\d+|\D+/gu) ?? []`: the maximal runs of digits and of other units. -/
def parts : JsString → List JsString
  | [] => []
  | c :: s => match parts s with
    | (d :: run) :: runs =>
      if isDigit c = isDigit d then (c :: d :: run) :: runs else [c] :: (d :: run) :: runs
    | runs => [c] :: runs

/-- `/^\d+$/u.test(part)`. -/
def isNumber (part : JsString) : Bool := decide (part ≠ []) && part.all isDigit

/-- `part.replace(/^0+(?=\d)/u, "")`. -/
def stripZeros : JsString → JsString
  | c :: d :: rest =>
    if c = 48 ∧ isDigit d = true then stripZeros (d :: rest) else c :: d :: rest
  | part => part

/-- The body of the loop, which goes on to the next index where this is zero. -/
def comparePart (leftPart rightPart : JsString) : ℤ :=
  let lexical := compareUtf16CodeUnits leftPart rightPart
  if isNumber leftPart && isNumber rightPart then
    let leftNumber := stripZeros leftPart
    let rightNumber := stripZeros rightPart
    if leftNumber.length ≠ rightNumber.length then
      (leftNumber.length : ℤ) - rightNumber.length
    else
      let numeric := compareUtf16CodeUnits leftNumber rightNumber
      if numeric ≠ 0 then numeric else lexical
  else lexical

/-- The loop, with what follows it. -/
def compareParts (left right : JsString) : List JsString → List JsString → ℤ
  | [], [] => compareUtf16CodeUnits left right
  | [], _ :: _ => -1
  | _ :: _, [] => 1
  | leftPart :: leftParts, rightPart :: rightParts =>
    if comparePart leftPart rightPart ≠ 0 then comparePart leftPart rightPart
    else compareParts left right leftParts rightParts

def naturalPartsCompare (left right : JsString) : ℤ :=
  compareParts left right (parts left) (parts right)

def naturalVersionCompare (left right : JsString) : ℤ :=
  let leftVersion := splitPrerelease left
  let rightVersion := splitPrerelease right
  if leftVersion.release ≠ rightVersion.release then
    naturalPartsCompare leftVersion.release rightVersion.release
  else match leftVersion.prerelease, rightVersion.prerelease with
    | none, none => 0
    | none, some _ => 1
    | some _, none => -1
    | some left, some right => naturalPartsCompare left right

/-! ## The selection -/

/-- The code points of a string, a lone surrogate being one. -/
def codePoints : JsString → List ℕ
  | [] => []
  | [c] => [c.val]
  | c :: d :: rest =>
    if isLeadSurrogate c && isTrailSurrogate d then pairCodePoint c d :: codePoints rest
    else c.val :: codePoints (d :: rest)

/-- A code point that `.` matches. -/
def isDot (c : ℕ) : Bool := decide (c ∉ [0x0A, 0x0D, 0x2028, 0x2029])

/-- `globExpression(pattern).test(text)`, over code points. -/
def matchesGlob : List ℕ → List ℕ → Bool
  | [], text => decide (text = [])
  | character :: pattern, text =>
    if character = 42 then (List.range (text.length + 1)).any fun n ↦
      (text.take n).all isDot && matchesGlob pattern (text.drop n)
    else match text with
      | [] => false
      | c :: text =>
        (if character = 63 then isDot c else decide (c = character)) && matchesGlob pattern text

/-- The client, as far as it is asked about one remote: what its calls throw, the tags of the clone,
and the commit that is checked out with a ref. -/
structure GitClient where
  resolveUrl : Except JsString Unit
  clone : Except JsString Unit
  listTags : Except JsString (List JsString)
  checkout : JsString → Except JsString Unit
  currentCommit : JsString → Option JsString

structure Coordinate where
  commit : JsString
  ref : JsString
  deriving DecidableEq

/-- `toLowerCase` of an ASCII letter. -/
def lowerUnit (c : CodeUnit) : CodeUnit := if 65 ≤ c.val ∧ c.val ≤ 90 then c + 32 else c

/-- `FULL_OID.test(commit)`. -/
def isFullOid (commit : JsString) : Bool := isHexOfLength 40 (commit.map lowerUnit)

/-- `matches.at(-1)`. -/
def selectTag (track : JsString) (tags : List JsString) : Option JsString :=
  (((tags.map fun tag ↦ lit "refs/tags/" ++ tag).filter fun ref ↦
    matchesGlob (codePoints track) (codePoints ref)).mergeSort fun a b ↦
      decide (naturalVersionCompare a b ≤ 0)).getLast?

/-- `discoverTrackedGitCheckout`. A track that is no glob is the work of `discoverExactGitCheckout`,
here `exact`. -/
def discoverTrackedGitCheckout (git : GitClient) (exact : Except JsString Coordinate)
    (url label track : JsString) : Except JsString Coordinate :=
  if !track.any fun c ↦ decide (c = 42 ∨ c = 63) then exact
  else if !(lit "refs/tags/").isPrefixOf track ||
      (track.any fun c ↦ isTrimmed c || decide (c ∈ lit "~^:[]\\")) then
    .error (lit "Template track glob must be a canonical refs/tags/* pattern")
  else do
    git.resolveUrl
    git.clone
    let tags ← git.listTags
    match selectTag track tags with
    | none => .error (lit "Git track " ++ track ++ lit " for " ++ label ++ lit " (" ++ url ++
        lit ") did not match any fetched tag")
    | some ref =>
      git.checkout ref
      match git.currentCommit ref with
      | some commit =>
        if isFullOid commit then .ok ⟨commit.map lowerUnit, ref⟩
        else .error (lit "Git tag " ++ ref ++ lit " did not resolve to a full commit")
      | none => .error (lit "Git tag " ++ ref ++ lit " did not resolve to a full commit")

/-! ## Numbers -/

theorem compareUtf16CodeUnits_compares (left right : JsString) :
    Compares (compareUtf16CodeUnits left right) left right := by
  rw [compareUtf16CodeUnits]
  split_ifs with hlt hgt
  · exact .of_lt hlt (by decide)
  · exact .of_gt hgt (by decide)
  · rw [le_antisymm (not_lt.mp hgt) (not_lt.mp hlt)]
    exact .refl _

def digitValue (c : CodeUnit) : ℕ := c.val - 48

/-- The number a run of digits denotes. -/
def numericValue (part : JsString) : ℕ := Nat.ofDigits 10 (part.reverse.map digitValue)

theorem digitValue_lt {c : CodeUnit} (h : isDigit c = true) : digitValue c < 10 := by
  have hc := of_decide_eq_true h
  rw [digitValue]
  omega

theorem numericValue_cons (c : CodeUnit) (s : JsString) :
    numericValue (c :: s) = numericValue s + 10 ^ s.length * digitValue c := by
  simp [numericValue, Nat.ofDigits_append]

theorem numericValue_lt {s : JsString} (h : s.all isDigit = true) :
    numericValue s < 10 ^ s.length := by
  have hlt : ∀ x ∈ s.reverse.map digitValue, x < 10 := by
    intro x hx
    obtain ⟨c, hc, rfl⟩ := List.mem_map.mp hx
    exact digitValue_lt (List.all_eq_true.mp h c (List.mem_reverse.mp hc))
  have hbound := Nat.ofDigits_lt_base_pow_length (by decide) hlt
  rwa [List.length_map, List.length_reverse] at hbound

theorem numericValue_append (s t : JsString) :
    numericValue (s ++ t) = numericValue s * 10 ^ t.length + numericValue t := by
  simp only [numericValue, List.reverse_append, List.map_append, Nat.ofDigits_append,
    List.length_map, List.length_reverse]
  ring

/-- Numbers of equal length are ordered as their digits. -/
theorem lt_iff_numericValue_lt {a b : JsString} (ha : a.all isDigit = true)
    (hb : b.all isDigit = true) (hlen : a.length = b.length) :
    a < b ↔ numericValue a < numericValue b := by
  induction a generalizing b with
  | nil =>
    obtain rfl : b = [] := List.length_eq_zero_iff.mp hlen.symm
    simp
  | cons c a ih =>
    cases b with
    | nil => exact nomatch hlen
    | cons d b =>
      rw [List.all_cons, Bool.and_eq_true] at ha hb
      have hlen' : a.length = b.length := Nat.succ.inj hlen
      have hva := numericValue_lt ha.2
      have hvb := numericValue_lt hb.2
      have hc := of_decide_eq_true ha.1
      have hd := of_decide_eq_true hb.1
      rw [List.cons_lt_cons_iff, ih ha.2 hb.2 hlen', numericValue_cons, numericValue_cons, hlen']
      rw [hlen'] at hva
      rcases lt_trichotomy c d with hcd | rfl | hcd
      · have hdigit : digitValue c + 1 ≤ digitValue d := by
          have hval : c.val < d.val := hcd
          simp only [digitValue]
          omega
        have hmul := Nat.mul_le_mul_left (10 ^ b.length) hdigit
        rw [Nat.mul_add, Nat.mul_one] at hmul
        exact iff_of_true (.inl hcd) (by omega)
      · simp
      · have hdigit : digitValue d + 1 ≤ digitValue c := by
          have hval : d.val < c.val := hcd
          simp only [digitValue]
          omega
        have hmul := Nat.mul_le_mul_left (10 ^ b.length) hdigit
        rw [Nat.mul_add, Nat.mul_one] at hmul
        refine iff_of_false ?_ (by omega)
        rintro (h | ⟨rfl, -⟩)
        · exact hcd.asymm h
        · exact lt_irrefl _ hcd

/-- What is left without the leading zeros: a number of one digit, or one that does not start with a
zero. -/
structure Stripped (s : JsString) : Prop where
  digits : s.all isDigit = true
  nonempty : s ≠ []
  leading : s.length = 1 ∨ ∃ c t, s = c :: t ∧ c ≠ 48

theorem stripped_stripZeros {s : JsString} (h : isNumber s = true) :
    Stripped (stripZeros s) ∧ numericValue (stripZeros s) = numericValue s := by
  rw [isNumber, Bool.and_eq_true, decide_eq_true_eq] at h
  obtain ⟨hne, hdigits⟩ := h
  induction s with
  | nil => exact absurd rfl hne
  | cons c t ih =>
    cases t with
    | nil => exact ⟨⟨hdigits, hne, .inl rfl⟩, rfl⟩
    | cons d rest =>
      have htail := hdigits
      rw [List.all_cons, Bool.and_eq_true] at htail
      by_cases hzero : c = 48 ∧ isDigit d = true
      · obtain ⟨hstripped, hvalue⟩ := ih (List.cons_ne_nil _ _) htail.2
        rw [stripZeros, if_pos hzero]
        refine ⟨hstripped, hvalue.trans ?_⟩
        rw [numericValue_cons c, hzero.1]
        simp [digitValue]
      · rw [stripZeros, if_neg hzero]
        refine ⟨⟨hdigits, hne, .inr ⟨c, _, rfl, fun hc ↦ hzero ⟨hc, ?_⟩⟩⟩, rfl⟩
        rw [List.all_cons, Bool.and_eq_true] at htail
        exact htail.2.1

/-- The longer of two such numbers is the greater one. -/
theorem numericValue_lt_of_length_lt {a b : JsString} (ha : Stripped a) (hb : Stripped b)
    (h : a.length < b.length) : numericValue a < numericValue b := by
  have hpos : 0 < a.length := List.length_pos_iff.mpr ha.nonempty
  rcases hb.leading with hone | ⟨c, t, rfl, hc⟩
  · omega
  · have hcdigit := of_decide_eq_true (List.all_eq_true.mp hb.digits c List.mem_cons_self)
    have hdigit : 1 ≤ digitValue c := by
      have hval : c.val ≠ 48 := fun heq ↦ hc (Fin.ext heq)
      rw [digitValue]
      omega
    have hle : 10 ^ a.length ≤ 10 ^ t.length := by
      apply Nat.pow_le_pow_right (by decide)
      rw [List.length_cons] at h
      omega
    have hmul := Nat.mul_le_mul_left (10 ^ t.length) hdigit
    have hva := numericValue_lt ha.digits
    rw [numericValue_cons]
    omega

/-- The comparison of two numbers without their leading zeros. -/
theorem stripped_compares {left right : JsString} (hl : isNumber left = true)
    (hr : isNumber right = true) :
    Compares (if (stripZeros left).length ≠ (stripZeros right).length then
        ((stripZeros left).length : ℤ) - (stripZeros right).length
      else compareUtf16CodeUnits (stripZeros left) (stripZeros right))
      (numericValue left) (numericValue right) := by
  obtain ⟨hleft, hlv⟩ := stripped_stripZeros hl
  obtain ⟨hright, hrv⟩ := stripped_stripZeros hr
  rw [← hlv, ← hrv]
  rcases lt_trichotomy (stripZeros left).length (stripZeros right).length with h | h | h
  · rw [if_pos h.ne]
    exact .of_lt (numericValue_lt_of_length_lt hleft hright h) (by omega)
  · rw [if_neg (not_not.mpr h)]
    exact (compareUtf16CodeUnits_compares _ _).congr
      (lt_iff_numericValue_lt hleft.digits hright.digits h)
      (lt_iff_numericValue_lt hright.digits hleft.digits h.symm)
  · rw [if_pos h.ne']
    exact .of_gt (numericValue_lt_of_length_lt hright hleft h) (by omega)

/-! ## Keys -/

/-- Units below the digits, the digits, and units above. -/
def unitClass (c : CodeUnit) : ℕ := if c.val < 48 then 0 else if c.val ≤ 57 then 1 else 2

theorem unitClass_eq_one {c : CodeUnit} : unitClass c = 1 ↔ isDigit c = true := by
  rw [unitClass, isDigit, decide_eq_true_eq]
  split_ifs <;> simp <;> omega

theorem lt_of_unitClass_lt {c d : CodeUnit} (h : unitClass c < unitClass d) : c < d := by
  rw [unitClass, unitClass] at h
  rw [Fin.lt_def]
  split_ifs at h <;> omega

/-- What the expression matches: units of one kind, at least one. -/
structure IsPart (part : JsString) : Prop where
  nonempty : part ≠ []
  uniform : ∀ c ∈ part, ∀ d ∈ part, isDigit c = isDigit d

/-- The key of a part: its class, its number, and its text. -/
def partKey (part : JsString) : ℕ ×ₗ ℕ ×ₗ JsString :=
  toLex (part.head?.elim 0 unitClass,
    toLex (if isNumber part then numericValue part else 0, part))

theorem partKey_injective : Function.Injective partKey := by
  intro a b h
  exact congrArg (fun k : ℕ ×ₗ ℕ ×ₗ JsString ↦ (ofLex (ofLex k).2).2) h

theorem partKey_lt_iff {a b : JsString} : partKey a < partKey b ↔
    a.head?.elim 0 unitClass < b.head?.elim 0 unitClass ∨
      a.head?.elim 0 unitClass = b.head?.elim 0 unitClass ∧
        ((if isNumber a then numericValue a else 0) < (if isNumber b then numericValue b else 0) ∨
          (if isNumber a then numericValue a else 0) = (if isNumber b then numericValue b else 0) ∧
            a < b) := by
  rw [partKey, partKey, Prod.Lex.toLex_lt_toLex, Prod.Lex.toLex_lt_toLex]

theorem isNumber_cons {c : CodeUnit} {s : JsString} (h : IsPart (c :: s)) :
    isNumber (c :: s) = isDigit c := by
  cases hc : isDigit c with
  | true =>
    rw [isNumber, decide_eq_true (List.cons_ne_nil c s), Bool.true_and, List.all_eq_true]
    intro d hd
    rw [h.uniform d hd c List.mem_cons_self, hc]
  | false => rw [isNumber, List.all_cons, hc, Bool.false_and, Bool.and_false]

/-- The class of a number is one. -/
theorem class_eq_one_iff {part : JsString} (h : IsPart part) :
    part.head?.elim 0 unitClass = 1 ↔ isNumber part = true := by
  cases part with
  | nil => exact absurd rfl h.nonempty
  | cons c s =>
    rw [isNumber_cons h]
    exact unitClass_eq_one

theorem lt_of_class_lt {a b : JsString} (ha : a ≠ []) (hb : b ≠ [])
    (h : a.head?.elim 0 unitClass < b.head?.elim 0 unitClass) : a < b := by
  cases a with
  | nil => exact absurd rfl ha
  | cons c s =>
    cases b with
    | nil => exact absurd rfl hb
    | cons d t => exact List.cons_lt_cons_iff.mpr (.inl (lt_of_unitClass_lt h))

/-- Unless both are numbers, parts are ordered as their texts. -/
theorem partKey_lt_iff_of_not {a b : JsString} (ha : IsPart a) (hb : IsPart b)
    (h : ¬(isNumber a && isNumber b) = true) : partKey a < partKey b ↔ a < b := by
  rw [partKey_lt_iff]
  rcases lt_trichotomy (a.head?.elim 0 unitClass) (b.head?.elim 0 unitClass) with hlt | heq | hgt
  · exact iff_of_true (.inl hlt) (lt_of_class_lt ha.nonempty hb.nonempty hlt)
  · -- parts of one class are numbers together
    have hiff : isNumber a = true ↔ isNumber b = true := by
      rw [← class_eq_one_iff ha, ← class_eq_one_iff hb, heq]
    have hna : ¬isNumber a = true := fun hna ↦ h (by rw [hna, hiff.mp hna]; rfl)
    have hnb : ¬isNumber b = true := fun hnb ↦ hna (hiff.mpr hnb)
    rw [if_neg hna, if_neg hnb]
    simp [heq]
  · refine iff_of_false ?_ (lt_of_class_lt hb.nonempty ha.nonempty hgt).not_gt
    rintro (hlt | ⟨heq, -⟩)
    · exact hlt.asymm hgt
    · exact hgt.ne heq.symm

/-- Numbers are ordered by their value, and then as their texts. -/
theorem partKey_lt_iff_of_numbers {a b : JsString} (ha : IsPart a) (hb : IsPart b)
    (hna : isNumber a = true) (hnb : isNumber b = true) : partKey a < partKey b ↔
      numericValue a < numericValue b ∨ numericValue a = numericValue b ∧ a < b := by
  rw [partKey_lt_iff, (class_eq_one_iff ha).mpr hna, (class_eq_one_iff hb).mpr hnb, if_pos hna,
    if_pos hnb]
  simp

theorem comparePart_compares {a b : JsString} (ha : IsPart a) (hb : IsPart b) :
    Compares (comparePart a b) (partKey a) (partKey b) := by
  rw [comparePart]
  by_cases hnumbers : (isNumber a && isNumber b) = true
  · obtain ⟨hna, hnb⟩ := Bool.and_eq_true _ _ ▸ hnumbers
    have hnumeric := stripped_compares hna hnb
    simp only [if_pos hnumbers]
    set c := if (stripZeros a).length ≠ (stripZeros b).length then
        ((stripZeros a).length : ℤ) - (stripZeros b).length
      else compareUtf16CodeUnits (stripZeros a) (stripZeros b) with hc
    have hshape : (if (stripZeros a).length ≠ (stripZeros b).length then
          ((stripZeros a).length : ℤ) - (stripZeros b).length
        else if compareUtf16CodeUnits (stripZeros a) (stripZeros b) ≠ 0 then
          compareUtf16CodeUnits (stripZeros a) (stripZeros b)
        else compareUtf16CodeUnits a b) = if c ≠ 0 then c else compareUtf16CodeUnits a b := by
      rw [hc]
      by_cases hlen : (stripZeros a).length ≠ (stripZeros b).length
      · have hne : ((stripZeros a).length : ℤ) - (stripZeros b).length ≠ 0 := by omega
        simp only [if_pos hlen, if_pos hne]
      · simp only [if_neg hlen]
    rw [hshape]
    by_cases hzero : c = 0
    · have hvalue := hnumeric.eq_zero_iff.mp hzero
      rw [if_neg (not_not.mpr hzero)]
      refine (compareUtf16CodeUnits_compares a b).congr ?_ ?_
      · rw [partKey_lt_iff_of_numbers ha hb hna hnb]
        simp [hvalue]
      · rw [partKey_lt_iff_of_numbers hb ha hnb hna]
        simp [hvalue]
    · have hvalue : numericValue a ≠ numericValue b := fun h ↦ hzero (hnumeric.eq_zero_iff.mpr h)
      rw [if_pos hzero]
      refine hnumeric.congr ?_ ?_
      · rw [partKey_lt_iff_of_numbers ha hb hna hnb]
        simp [hvalue]
      · rw [partKey_lt_iff_of_numbers hb ha hnb hna]
        simp [hvalue.symm]
  · rw [if_neg hnumbers]
    refine (compareUtf16CodeUnits_compares a b).congr (partKey_lt_iff_of_not ha hb hnumbers).symm
      (partKey_lt_iff_of_not hb ha ?_).symm
    rwa [Bool.and_comm]

/-! ### Texts -/

theorem parts_ne_nil {c : CodeUnit} {s : JsString} : parts (c :: s) ≠ [] := by
  rw [parts]
  split
  · split_ifs <;> exact List.cons_ne_nil _ _
  · exact List.cons_ne_nil _ _

theorem isPart_of_mem_parts {s : JsString} : ∀ part ∈ parts s, IsPart part := by
  induction s with
  | nil => exact fun _ h ↦ absurd h List.not_mem_nil
  | cons c s ih =>
    have hsingle : IsPart [c] := by
      refine ⟨List.cons_ne_nil _ _, fun x hx y hy ↦ ?_⟩
      rw [List.mem_singleton.mp hx, List.mem_singleton.mp hy]
    rw [parts]
    split
    · rename_i d run runs hparts
      rw [hparts] at ih
      obtain ⟨hrun, hruns⟩ := List.forall_mem_cons.mp ih
      split_ifs with hkind
      · refine List.forall_mem_cons.mpr ⟨⟨List.cons_ne_nil _ _, fun x hx y hy ↦ ?_⟩, hruns⟩
        have hd : ∀ z ∈ c :: d :: run, isDigit z = isDigit d := by
          refine List.forall_mem_cons.mpr ⟨hkind, fun z hz ↦ ?_⟩
          exact hrun.uniform z hz d List.mem_cons_self
        rw [hd x hx, hd y hy]
      · exact List.forall_mem_cons.mpr ⟨hsingle, List.forall_mem_cons.mpr ⟨hrun, hruns⟩⟩
    · exact List.forall_mem_cons.mpr ⟨hsingle, ih⟩

/-- The parts are a text cut up. -/
theorem flatten_parts (s : JsString) : (parts s).flatten = s := by
  induction s with
  | nil => rfl
  | cons c s ih =>
    rw [parts]
    split
    · rename_i d run runs hparts
      rw [hparts] at ih
      split_ifs
      · exact congrArg (c :: ·) ih
      · exact congrArg (c :: ·) ih
    · exact congrArg (c :: ·) ih

/-- The key of a text. -/
def partsKey (s : JsString) : List (ℕ ×ₗ ℕ ×ₗ JsString) := (parts s).map partKey

theorem partsKey_injective : Function.Injective partsKey := by
  intro a b h
  have hparts : parts a = parts b := List.map_injective_iff.mpr partKey_injective h
  rw [← flatten_parts a, ← flatten_parts b, hparts]

/-- **The loop** compares the keys of the parts that are left. What follows the loop is reached with
equal texts only. -/
theorem compareParts_compares {left right : JsString} {ls rs : List JsString}
    (hls : ∀ part ∈ ls, IsPart part) (hrs : ∀ part ∈ rs, IsPart part)
    (hend : ls = rs → left = right) :
    Compares (compareParts left right ls rs) (ls.map partKey) (rs.map partKey) := by
  induction ls generalizing rs with
  | nil =>
    cases rs with
    | nil =>
      rw [compareParts, (compareUtf16CodeUnits_compares left right).eq_zero_iff.mpr (hend rfl)]
      exact .refl _
    | cons r rs => exact .of_lt (List.nil_lt_cons _ _) (by rw [compareParts]; decide)
  | cons l ls ih =>
    cases rs with
    | nil => exact .of_gt (List.nil_lt_cons _ _) (by rw [compareParts]; decide)
    | cons r rs =>
      obtain ⟨hl, hls'⟩ := List.forall_mem_cons.mp hls
      obtain ⟨hr, hrs'⟩ := List.forall_mem_cons.mp hrs
      have hpart := comparePart_compares hl hr
      rw [compareParts, List.map_cons, List.map_cons]
      by_cases hzero : comparePart l r = 0
      · obtain rfl := partKey_injective (hpart.eq_zero_iff.mp hzero)
        have htail : Compares (compareParts left right ls rs) (ls.map partKey) (rs.map partKey) :=
          ih hls' hrs' fun heq ↦ hend (congrArg (l :: ·) heq)
        rw [if_neg (not_not.mpr hzero)]
        refine htail.congr ?_ ?_
        · simp
        · simp
      · have hkey : partKey l ≠ partKey r := fun h ↦ hzero (hpart.eq_zero_iff.mpr h)
        rw [if_pos hzero]
        refine hpart.congr ?_ ?_
        · simp [List.cons_lt_cons_iff, hkey]
        · simp [List.cons_lt_cons_iff, hkey.symm]

theorem naturalPartsCompare_compares (left right : JsString) :
    Compares (naturalPartsCompare left right) (partsKey left) (partsKey right) := by
  refine compareParts_compares isPart_of_mem_parts isPart_of_mem_parts fun h ↦ ?_
  rw [← flatten_parts left, ← flatten_parts right, h]

/-! ### Refs -/

/-- A ref is its two parts with the `-` between them. -/
theorem splitPrerelease_join (ref : JsString) :
    ref = (splitPrerelease ref).release ++ ((splitPrerelease ref).prerelease.elim [] (45 :: ·)) := by
  rw [splitPrerelease]
  split
  · exact (List.append_nil ref).symm
  · rename_i i hfind
    obtain ⟨hlt, hdash, -⟩ := List.findIdx?_eq_some_iff_getElem.mp hfind
    rw [List.length_drop] at hlt
    have hindex : lastSegmentStart ref + i < ref.length := by omega
    rw [List.getElem_drop, decide_eq_true_eq] at hdash
    have hdrop : ref.drop (lastSegmentStart ref + i) =
        45 :: ref.drop (lastSegmentStart ref + i + 1) := by
      rw [List.drop_eq_getElem_cons hindex, hdash]
    exact (List.take_append_drop _ ref).symm.trans (congrArg _ hdrop)

/-- The key of a ref. A release comes after all its prereleases. -/
def versionKey (ref : JsString) : List (ℕ ×ₗ ℕ ×ₗ JsString) ×ₗ WithTop (List (ℕ ×ₗ ℕ ×ₗ JsString)) :=
  toLex (partsKey (splitPrerelease ref).release,
    (splitPrerelease ref).prerelease.elim ⊤ fun prerelease ↦ ↑(partsKey prerelease))

theorem versionKey_injective : Function.Injective versionKey := by
  intro a b h
  obtain ⟨hrelease, hprerelease⟩ := Prod.mk.inj (toLex.injective h)
  have hrelease' := partsKey_injective hrelease
  have hprerelease' : (splitPrerelease a).prerelease = (splitPrerelease b).prerelease := by
    cases ha : (splitPrerelease a).prerelease with
    | none =>
      cases hb : (splitPrerelease b).prerelease with
      | none => rfl
      | some q =>
        rw [ha, hb] at hprerelease
        exact absurd hprerelease (WithTop.coe_ne_top).symm
    | some p =>
      cases hb : (splitPrerelease b).prerelease with
      | none =>
        rw [ha, hb] at hprerelease
        exact absurd hprerelease WithTop.coe_ne_top
      | some q =>
        rw [ha, hb] at hprerelease
        exact congrArg some (partsKey_injective (WithTop.coe_injective hprerelease))
  rw [splitPrerelease_join a, splitPrerelease_join b, hrelease', hprerelease']

/-- **The comparator compares keys.** -/
theorem naturalVersionCompare_compares (left right : JsString) :
    Compares (naturalVersionCompare left right) (versionKey left) (versionKey right) := by
  rw [naturalVersionCompare, versionKey, versionKey]
  have hparts := naturalPartsCompare_compares (splitPrerelease left).release
    (splitPrerelease right).release
  by_cases hrelease : (splitPrerelease left).release = (splitPrerelease right).release
  · rw [if_neg (not_not.mpr hrelease), hrelease]
    have hlex {x y : WithTop (List (ℕ ×ₗ ℕ ×ₗ JsString))} {c : ℤ} (h : Compares c x y) :
        Compares c (toLex (partsKey (splitPrerelease right).release, x))
          (toLex (partsKey (splitPrerelease right).release, y)) := by
      refine h.congr ?_ ?_
      · simp [Prod.Lex.toLex_lt_toLex]
      · simp [Prod.Lex.toLex_lt_toLex]
    apply hlex
    cases (splitPrerelease left).prerelease with
    | none =>
      cases (splitPrerelease right).prerelease with
      | none => exact .refl _
      | some q => exact .of_gt (WithTop.coe_lt_top _) (show (0 : ℤ) < 1 by decide)
    | some p =>
      cases (splitPrerelease right).prerelease with
      | none => exact .of_lt (WithTop.coe_lt_top _) (show (-1 : ℤ) < 0 by decide)
      | some q =>
        exact (naturalPartsCompare_compares p q).congr WithTop.coe_lt_coe.symm
          WithTop.coe_lt_coe.symm
  · have hkey : partsKey (splitPrerelease left).release ≠ partsKey (splitPrerelease right).release :=
      fun h ↦ hrelease (partsKey_injective h)
    rw [if_pos hrelease]
    refine hparts.congr ?_ ?_
    · simp [Prod.Lex.toLex_lt_toLex, hkey]
    · simp [Prod.Lex.toLex_lt_toLex, hkey.symm]

/-! ## What the selection depends on -/

/-- The tags in another order. -/
theorem selectTag_perm (track : JsString) {tags tags' : List JsString} (h : tags.Perm tags') :
    selectTag track tags = selectTag track tags' := by
  rw [selectTag, selectTag, mergeSort_eq_of_perm naturalVersionCompare_compares versionKey_injective
    ((h.map _).filter _)]

/-- **The checkout does not depend on the order of the tags.** -/
theorem discoverTrackedGitCheckout_perm (git : GitClient) (exact : Except JsString Coordinate)
    (url label track : JsString) {tags tags' : List JsString} (h : tags.Perm tags') :
    discoverTrackedGitCheckout { git with listTags := .ok tags } exact url label track =
      discoverTrackedGitCheckout { git with listTags := .ok tags' } exact url label track := by
  simp only [discoverTrackedGitCheckout, bind, Except.bind, selectTag_perm track h]

/-! ## Prereleases -/

/-- The start of the last segment of a text that ends in one without a `/`. -/
theorem lastSegmentStart_append {s t : JsString} (ht : 47 ∉ t) :
    lastSegmentStart (s ++ t) = lastSegmentStart s := by
  have hall : ∀ c ∈ t.reverse, decide (c ≠ 47) = true := by
    intro c hc
    rw [decide_eq_true_eq]
    rintro rfl
    exact ht (List.mem_reverse.mp hc)
  rw [lastSegmentStart, lastSegmentStart, List.reverse_append, List.takeWhile_append_of_pos hall,
    List.length_append, List.length_append, List.length_reverse]
  omega

theorem lastSegmentStart_le (s : JsString) : lastSegmentStart s ≤ s.length := Nat.sub_le _ _

theorem splitPrerelease_eq_none {r : JsString} : splitPrerelease r = ⟨r, none⟩ ↔
    45 ∉ r.drop (lastSegmentStart r) := by
  rw [splitPrerelease]
  constructor
  · intro h hdash
    split at h
    · rename_i hfind
      have hnone := List.findIdx?_eq_none_iff.mp hfind 45 hdash
      exact absurd hnone (by decide)
    · exact nomatch (SplitRef.mk.inj h).2
  · intro h
    rw [List.findIdx?_eq_none_iff.mpr]
    intro c hc
    rw [decide_eq_false_iff_not]
    rintro rfl
    exact h hc

/-- A suffix of the last segment is the prerelease of the ref before it. -/
theorem splitPrerelease_suffix {r p : JsString} (hr : splitPrerelease r = ⟨r, none⟩)
    (hp : 47 ∉ p) : splitPrerelease (r ++ 45 :: p) = ⟨r, some p⟩ := by
  have hstart : lastSegmentStart (r ++ 45 :: p) = lastSegmentStart r := by
    apply lastSegmentStart_append
    simpa using hp
  have hle := lastSegmentStart_le r
  have hdash := splitPrerelease_eq_none.mp hr
  have hfind : ((r ++ 45 :: p).drop (lastSegmentStart r)).findIdx? (fun c ↦ decide (c = 45)) =
      some (r.length - lastSegmentStart r) := by
    rw [List.drop_append_of_le_length hle, List.findIdx?_append]
    have hnone : (r.drop (lastSegmentStart r)).findIdx? (fun c ↦ decide (c = 45)) = none := by
      rw [List.findIdx?_eq_none_iff]
      intro c hc
      rw [decide_eq_false_iff_not]
      rintro rfl
      exact hdash hc
    rw [hnone]
    simp [List.findIdx?_cons]
  have hsum : lastSegmentStart r + (r.length - lastSegmentStart r) = r.length := by omega
  rw [splitPrerelease, hstart]
  simp only [hfind, hsum, List.take_left]
  simp

/-- A text that goes on keeps its parts, but for the last, which may go on too. -/
theorem parts_append {s t : JsString} (hs : s ≠ []) (ht : t ≠ []) : ∃ init last more rest,
    parts s = init ++ [last] ∧ parts (s ++ t) = init ++ (last ++ more) :: rest ∧
      (more ≠ [] ∨ rest ≠ []) := by
  induction s with
  | nil => exact absurd rfl hs
  | cons c s ih =>
    cases s with
    | nil =>
      cases hparts : parts t with
      | nil =>
        cases t with
        | nil => exact absurd rfl ht
        | cons d t => exact absurd hparts parts_ne_nil
      | cons run runs =>
        have hrun : run ≠ [] := (isPart_of_mem_parts run (hparts ▸ List.mem_cons_self)).nonempty
        obtain ⟨d, run, rfl⟩ := List.exists_cons_of_ne_nil hrun
        have happend : parts ([c] ++ t) = if isDigit c = isDigit d then (c :: d :: run) :: runs
            else [c] :: (d :: run) :: runs := by
          rw [List.singleton_append, parts, hparts]
        rw [happend]
        split_ifs
        · exact ⟨[], [c], d :: run, runs, rfl, rfl, .inl (List.cons_ne_nil _ _)⟩
        · exact ⟨[], [c], [], (d :: run) :: runs, rfl, rfl, .inr (List.cons_ne_nil _ _)⟩
    | cons c' s =>
      obtain ⟨init, last, more, rest, hs, hst, hmore⟩ := ih (List.cons_ne_nil _ _)
      have hlast : last ≠ [] := by
        refine (isPart_of_mem_parts (s := c' :: s) last ?_).nonempty
        rw [hs]
        exact List.mem_append_right _ (List.mem_singleton_self _)
      obtain ⟨e, last, rfl⟩ := List.exists_cons_of_ne_nil hlast
      have hcons (x : CodeUnit) (y : JsString) : parts (x :: y) = match parts y with
          | (d :: run) :: runs =>
            if isDigit x = isDigit d then (x :: d :: run) :: runs else [x] :: (d :: run) :: runs
          | runs => [x] :: runs := by
        rw [parts]
      have happend : c :: c' :: s ++ t = c :: (c' :: s ++ t) := rfl
      rw [happend, hcons c (c' :: s), hcons c (c' :: s ++ t), hs, hst]
      cases init with
      | nil =>
        -- the run in front is the last one, and begins alike in both
        simp only [List.nil_append, List.cons_append]
        split_ifs
        · exact ⟨[], c :: e :: last, more, rest, rfl, rfl, hmore⟩
        · exact ⟨[[c]], e :: last, more, rest, rfl, rfl, hmore⟩
      | cons run init =>
        have hrun : run ≠ [] := by
          refine (isPart_of_mem_parts (s := c' :: s) run ?_).nonempty
          rw [hs]
          exact List.mem_cons_self
        obtain ⟨d, run, rfl⟩ := List.exists_cons_of_ne_nil hrun
        simp only [List.cons_append]
        split_ifs
        · exact ⟨(c :: d :: run) :: init, e :: last, more, rest, rfl, rfl, hmore⟩
        · exact ⟨[c] :: (d :: run) :: init, e :: last, more, rest, rfl, rfl, hmore⟩

theorem partKey_lt_append {s t : JsString} (hs : IsPart s) (hst : IsPart (s ++ t)) (ht : t ≠ []) :
    partKey s < partKey (s ++ t) := by
  obtain ⟨c, s, rfl⟩ := List.exists_cons_of_ne_nil hs.nonempty
  have htext : c :: s < c :: s ++ t := lt_append_of_ne_nil _ ht
  have hnumbers : isNumber (c :: s) = isNumber (c :: s ++ t) := by
    rw [isNumber_cons hs]
    exact (isNumber_cons hst).symm
  cases hnumber : isNumber (c :: s) with
  | false =>
    rw [partKey_lt_iff_of_not hs hst (by rw [hnumber, Bool.false_and]; exact Bool.false_ne_true)]
    exact htext
  | true =>
    rw [partKey_lt_iff_of_numbers hs hst hnumber (hnumbers ▸ hnumber), numericValue_append]
    have hpow : 1 ≤ 10 ^ t.length := Nat.one_le_pow _ _ (by decide)
    have hle := Nat.mul_le_mul_left (numericValue (c :: s)) hpow
    by_cases heq : numericValue (c :: s) = numericValue (c :: s) * 10 ^ t.length + numericValue t
    · exact .inr ⟨heq, htext⟩
    · exact .inl (by omega)

/-- A text comes before those that go on after it. -/
theorem partsKey_lt_append (s : JsString) {t : JsString} (ht : t ≠ []) :
    partsKey s < partsKey (s ++ t) := by
  cases s with
  | nil =>
    obtain ⟨c, t, rfl⟩ := List.exists_cons_of_ne_nil ht
    rw [partsKey, partsKey, List.nil_append]
    obtain ⟨run, runs, hparts⟩ := List.exists_cons_of_ne_nil (parts_ne_nil (c := c) (s := t))
    rw [hparts]
    exact List.nil_lt_cons _ _
  | cons c s =>
    obtain ⟨init, last, more, rest, hs, hst, hmore⟩ := parts_append (List.cons_ne_nil c s) ht
    have hlast : IsPart last := isPart_of_mem_parts (s := c :: s) last
      (hs ▸ List.mem_append_right _ (List.mem_singleton_self _))
    have hlonger : IsPart (last ++ more) := isPart_of_mem_parts (s := c :: s ++ t) _
      (hst ▸ List.mem_append_right _ List.mem_cons_self)
    rw [partsKey, partsKey, hs, hst, List.map_append, List.map_append, append_lt_append_iff,
      List.map_cons, List.map_cons, List.cons_lt_cons_iff]
    by_cases hnil : more = []
    · subst hnil
      rw [List.append_nil]
      refine .inr ⟨rfl, ?_⟩
      obtain ⟨run, rest, rfl⟩ := List.exists_cons_of_ne_nil (hmore.resolve_left (absurd rfl))
      exact List.nil_lt_cons _ _
    · exact .inl (partKey_lt_append hlast hlonger hnil)

/-- A text with a `/` has its last segment behind it. -/
theorem lt_lastSegmentStart {s t : JsString} (ht : 47 ∈ t) :
    s.length < lastSegmentStart (s ++ t) := by
  have hlt : (t.reverse.takeWhile fun c ↦ decide (c ≠ 47)).length < t.reverse.length := by
    refine lt_of_le_of_ne (List.takeWhile_prefix _).length_le fun hlen ↦ ?_
    have hall := (List.takeWhile_prefix fun c ↦ decide (c ≠ 47)).eq_of_length hlen
    have hslash := List.mem_takeWhile_imp (hall.symm ▸ List.mem_reverse.mpr ht)
    exact absurd hslash (by decide)
  rw [lastSegmentStart, List.reverse_append, List.takeWhile_append, if_neg hlt.ne,
    List.length_append]
  rw [List.length_reverse] at hlt
  omega

/-- The release of a ref that goes on in another segment goes on after the ref. -/
theorem release_append_slash {r p : JsString} (hp : 47 ∈ p) :
    ∃ t, t ≠ [] ∧ (splitPrerelease (r ++ 45 :: p)).release = r ++ t := by
  have hstart : r.length < lastSegmentStart (r ++ 45 :: p) :=
    lt_lastSegmentStart (List.mem_cons_of_mem _ hp)
  rw [splitPrerelease]
  split
  · exact ⟨45 :: p, List.cons_ne_nil _ _, rfl⟩
  · rename_i i _
    obtain ⟨k, hk⟩ := Nat.exists_eq_add_of_lt (hstart.trans_le (Nat.le_add_right _ i))
    refine ⟨45 :: p.take k, List.cons_ne_nil _ _, ?_⟩
    simp only [hk]
    rw [Nat.add_assoc, List.take_length_add_append, List.take_succ_cons]

/-- **A release comes after its prereleases**, those of its last segment. -/
theorem pos_suffix_iff {r : JsString} (hr : splitPrerelease r = ⟨r, none⟩) (p : JsString) :
    0 < naturalVersionCompare r (r ++ 45 :: p) ↔ 47 ∉ p := by
  rw [(naturalVersionCompare_compares r (r ++ 45 :: p)).pos_iff, versionKey, versionKey, hr]
  constructor
  · intro h hp
    obtain ⟨t, ht, hrelease⟩ := release_append_slash (r := r) hp
    rw [hrelease, Prod.Lex.toLex_lt_toLex] at h
    have hlt := partsKey_lt_append r ht
    rcases h with h | ⟨h, -⟩
    · exact hlt.asymm h
    · exact hlt.ne h.symm
  · intro hp
    rw [splitPrerelease_suffix hr hp, Prod.Lex.toLex_lt_toLex]
    exact .inr ⟨rfl, WithTop.coe_lt_top _⟩

/-! ## Digit runs -/

/-- The parts are equal, or one number with different padding. -/
def SamePart (part part' : JsString) : Prop :=
  part = part' ∨ (isNumber part = true ∧ isNumber part' = true ∧
    numericValue part = numericValue part')

/-- The first difference of two lists that agree up to padding. -/
theorem exists_padding {init init' : List JsString} (h : List.Forall₂ SamePart init init')
    (hne : init ≠ init') : ∃ common run run' rest rest', init = common ++ run :: rest ∧
      init' = common ++ run' :: rest' ∧ run ≠ run' ∧ isNumber run = true ∧
      isNumber run' = true ∧ numericValue run = numericValue run' := by
  induction h with
  | nil => exact absurd rfl hne
  | @cons run run' rest rest' hrun hrest ih =>
    by_cases heq : run = run'
    · subst heq
      obtain ⟨common, a, b, x, y, rfl, rfl, hab⟩ := ih fun heq ↦ hne (congrArg (run :: ·) heq)
      exact ⟨run :: common, a, b, x, y, rfl, rfl, hab⟩
    · exact ⟨[], run, run', rest, rest', rfl, rfl, heq, hrun.resolve_left heq⟩

/-- Two refs whose last segments have no prerelease are compared by their parts. -/
theorem compares_of_release {l r : JsString} (hl : splitPrerelease l = ⟨l, none⟩)
    (hr : splitPrerelease r = ⟨r, none⟩) :
    Compares (naturalVersionCompare l r) (partsKey l) (partsKey r) := by
  refine (naturalVersionCompare_compares l r).congr ?_ ?_
  · rw [versionKey, versionKey, hl, hr, Prod.Lex.toLex_lt_toLex]
    simp
  · rw [versionKey, versionKey, hl, hr, Prod.Lex.toLex_lt_toLex]
    simp

/-- **When refs are ordered as the numbers they first differ in**: if the runs before are written
alike, or the first one that is not is ordered as these numbers. -/
theorem order_of_runs_iff {l r : JsString} (hl : splitPrerelease l = ⟨l, none⟩)
    (hr : splitPrerelease r = ⟨r, none⟩) {init init' rest rest' : List JsString}
    {run run' : JsString} (hparts : parts l = init ++ run :: rest)
    (hparts' : parts r = init' ++ run' :: rest') (hinit : List.Forall₂ SamePart init init')
    (hrun : isNumber run = true) (hrun' : isNumber run' = true)
    (hvalue : numericValue run ≠ numericValue run') :
    Compares (naturalVersionCompare l r) (numericValue run) (numericValue run') ↔
      (init = init' ∨ (init < init' ↔ numericValue run < numericValue run')) := by
  have hcompares := compares_of_release hl hr
  have hpart : ∀ part ∈ init ++ run :: rest, IsPart part := hparts ▸ isPart_of_mem_parts
  have hpart' : ∀ part ∈ init' ++ run' :: rest', IsPart part := hparts' ▸ isPart_of_mem_parts
  rw [partsKey, partsKey, hparts, hparts'] at hcompares
  by_cases heq : init = init'
  · subst heq
    refine iff_of_true (hcompares.congr ?_ ?_) (.inl rfl)
    all_goals
      have hmem := hpart run (List.mem_append_right _ List.mem_cons_self)
      have hmem' := hpart' run' (List.mem_append_right _ List.mem_cons_self)
      have hkey : partKey run ≠ partKey run' := fun h ↦ hvalue (congrArg _ (partKey_injective h))
      simp only [List.map_append, List.map_cons]
    · rw [append_cons_lt_append_cons_iff hkey, partKey_lt_iff_of_numbers hmem hmem' hrun hrun']
      simp [hvalue]
    · rw [append_cons_lt_append_cons_iff hkey.symm, partKey_lt_iff_of_numbers hmem' hmem hrun' hrun]
      simp [hvalue.symm]
  · -- the padding of the first such run decides
    obtain ⟨common, pad, pad', more, more', rfl, rfl, hne, hpad, hpad', hpadvalue⟩ :=
      exists_padding hinit heq
    have hmem := hpart pad (List.mem_append_left _ (List.mem_append_right _ List.mem_cons_self))
    have hmem' := hpart' pad' (List.mem_append_left _ (List.mem_append_right _ List.mem_cons_self))
    have hkey : partKey pad ≠ partKey pad' := fun h ↦ hne (partKey_injective h)
    have hpads : Compares (naturalVersionCompare l r) pad pad' := by
      refine hcompares.congr ?_ ?_
      all_goals simp only [List.map_append, List.map_cons, List.append_assoc, List.cons_append]
      · rw [append_cons_lt_append_cons_iff hkey, partKey_lt_iff_of_numbers hmem hmem' hpad hpad']
        simp [hpadvalue]
      · rw [append_cons_lt_append_cons_iff hkey.symm,
          partKey_lt_iff_of_numbers hmem' hmem hpad' hpad]
        simp [hpadvalue]
    rw [or_iff_right heq, append_cons_lt_append_cons_iff hne]
    constructor
    · intro h
      rw [← hpads.neg_iff, h.neg_iff]
    · intro h
      refine hpads.congr h ?_
      have hgt : pad' < pad ↔ ¬pad < pad' := by
        rw [not_lt]
        exact ⟨le_of_lt, fun hle ↦ lt_of_le_of_ne hle (Ne.symm hne)⟩
      rw [hgt, h, not_lt]
      exact ⟨fun hle ↦ lt_of_le_of_ne hle (Ne.symm hvalue), le_of_lt⟩

/-! ## The order of refs -/

/-- **When the selection of tracked tags is a selection of the highest version.** The comparator is a
strict total order, so the selection does not depend on the order of the tags, without a condition. A
release is above its prerelease if this is one of its last segment, and refs are ordered by the
numbers they first differ in if the runs in front are padded alike, or in the same order. -/
theorem naturalVersionCompare_iff (a b c : JsString) :
    (naturalVersionCompare a b = 0 ↔ a = b) ∧
    (naturalVersionCompare a b < 0 ↔ 0 < naturalVersionCompare b a) ∧
    (naturalVersionCompare a b < 0 → naturalVersionCompare b c < 0 →
      naturalVersionCompare a c < 0) ∧
    (∀ (git : GitClient) exact url label track (tags tags' : List JsString), tags.Perm tags' →
      discoverTrackedGitCheckout { git with listTags := .ok tags } exact url label track =
        discoverTrackedGitCheckout { git with listTags := .ok tags' } exact url label track) ∧
    (∀ r p, splitPrerelease r = ⟨r, none⟩ →
      (0 < naturalVersionCompare r (r ++ 45 :: p) ↔ 47 ∉ p)) ∧
    ∀ l r init init' rest rest' run run', splitPrerelease l = ⟨l, none⟩ →
      splitPrerelease r = ⟨r, none⟩ → parts l = init ++ run :: rest →
      parts r = init' ++ run' :: rest' → List.Forall₂ SamePart init init' →
      isNumber run = true → isNumber run' = true → numericValue run ≠ numericValue run' →
      (Compares (naturalVersionCompare l r) (numericValue run) (numericValue run') ↔
        (init = init' ∨ (init < init' ↔ numericValue run < numericValue run'))) := by
  refine ⟨?_, ?_, fun hab hbc ↦ ?_,
    fun git exact url label track _ _ h ↦ discoverTrackedGitCheckout_perm git exact url label track h,
    fun r p hr ↦ pos_suffix_iff hr p,
    fun _ _ _ _ _ _ _ _ hl hr hparts hparts' hinit hrun hrun' hvalue ↦
      order_of_runs_iff hl hr hparts hparts' hinit hrun hrun' hvalue⟩
  · rw [(naturalVersionCompare_compares a b).eq_zero_iff]
    exact versionKey_injective.eq_iff
  · rw [(naturalVersionCompare_compares a b).neg_iff, (naturalVersionCompare_compares b a).pos_iff]
  · rw [(naturalVersionCompare_compares _ _).neg_iff] at hab hbc ⊢
    exact hab.trans hbc

theorem naturalVersionCompare_iff_of_versions :
    (0 < naturalVersionCompare (lit "refs/tags/v1") (lit "refs/tags/v1" ++ 45 :: lit "rc1") ↔
      47 ∉ lit "rc1") ∧
    (Compares (naturalVersionCompare (lit "refs/tags/v10") (lit "refs/tags/v9"))
      (numericValue (lit "10")) (numericValue (lit "9")) ↔
        ([lit "refs/tags/v"] = [lit "refs/tags/v"] ∨ ([lit "refs/tags/v"] < [lit "refs/tags/v"] ↔
          numericValue (lit "10") < numericValue (lit "9")))) :=
  ⟨(naturalVersionCompare_iff [] [] []).2.2.2.2.1 (lit "refs/tags/v1") (lit "rc1") (by decide),
    (naturalVersionCompare_iff [] [] []).2.2.2.2.2 (lit "refs/tags/v10") (lit "refs/tags/v9")
      [lit "refs/tags/v"] [lit "refs/tags/v"] [] [] (lit "10") (lit "9") (by decide) (by decide)
      (by decide) (by decide) (.cons (.inl rfl) .nil) (by decide) (by decide) (by decide)⟩

/-- A padded run in front hides the numbers that follow it: `v01.10` is below `v1.2`. -/
theorem not_order_of_runs :
    ¬∀ l r init init' rest rest' run run', splitPrerelease l = ⟨l, none⟩ →
      splitPrerelease r = ⟨r, none⟩ → parts l = init ++ run :: rest →
      parts r = init' ++ run' :: rest' → List.Forall₂ SamePart init init' →
      isNumber run = true → isNumber run' = true → numericValue run ≠ numericValue run' →
      Compares (naturalVersionCompare l r) (numericValue run) (numericValue run') := by
  intro h
  have horder := h (lit "refs/tags/v01.10") (lit "refs/tags/v1.2")
    [lit "refs/tags/v", lit "01", lit "."] [lit "refs/tags/v", lit "1", lit "."] [] []
    (lit "10") (lit "2") (by decide) (by decide) (by decide) (by decide)
    (.cons (.inl rfl) (.cons (.inr ⟨by decide, by decide, by decide⟩) (.cons (.inl rfl) .nil)))
    (by decide) (by decide) (by decide)
  exact absurd (horder.pos_iff.mpr (by decide)) (by decide)

end Vibestudio.Git
