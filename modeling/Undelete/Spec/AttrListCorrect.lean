import Mathlib.Data.List.Forall2
import Undelete.Spec.AttrCorrect

/-!
# The attribute list of a record

`iterAttributes` walks over untrusted lengths and offsets. Its flag says that the bytes from the
first attribute on are attributes in order and nothing else, up to the end marker; and whatever
it returns, flagged or not, lies in the record, each attribute behind the one before.

## Key results

- `attributesFrom_spans`: the attributes returned, in their places.
- `attributesFrom_wellFormed`, `Attributes.attributesFrom`: when the flag is set.
- `checkedAttributesFrom_eq`: no slice is taken out of range.
-/

namespace Undelete.Ntfs

/-! ## Well-formed attributes -/

/-- The name of an attribute lies in it. -/
def NameInside (attr : Bytes) : Prop :=
  (Le.u8At attr 9).getD 0 = 0 ∨
    (Le.u16At attr 10).getD 0 + (Le.u8At attr 9).getD 0 * 2 ≤ attr.length

/-- The value of a resident attribute, and the run list of a non-resident one, lies in it
    behind the header; and no more is initialized than the size of the data. -/
def BodyInside (attr : Bytes) : Prop :=
  if (Le.u8At attr 8).getD 0 = 0 then
    24 ≤ (Le.u16At attr 20).getD 0 ∧
      (Le.u16At attr 20).getD 0 + (Le.u32At attr 16).getD 0 ≤ attr.length
  else
    64 ≤ (Le.u16At attr 32).getD 0 ∧ (Le.u16At attr 32).getD 0 < attr.length ∧
      (Le.u64At attr 56).getD 0 ≤ (Le.u64At attr 48).getD 0

/-- A well-formed attribute from `start` to `stop`. -/
structure AttributeAt (data : Bytes) (start stop : Nat) : Prop where
  type : ∃ typeId, Le.u32At data start = some typeId ∧ typeId ≠ attrEnd
  length : Le.u32At data (start + 4) = some (stop - start)
  header : start + 24 ≤ stop
  inside : stop ≤ data.length
  name : NameInside (data.slice start stop)
  body : BodyInside (data.slice start stop)

/-- Well-formed attributes from `start` on, one behind the other, up to the end marker. -/
inductive Attributes (data : Bytes) : Nat → List (Nat × Nat) → Prop where
  | done {start : Nat} : Le.u32At data start = some attrEnd → Attributes data start []
  | cons {start stop : Nat} {spans : List (Nat × Nat)} : AttributeAt data start stop →
      Attributes data stop spans → Attributes data start ((start, stop) :: spans)

/-- What the bytes of an attribute say. -/
structure ReadsAs (data : Bytes) (span : Nat × Nat) (a : Attribute) : Prop where
  typeId : Le.u32At data span.1 = some a.typeId
  name : a.name = (attributeName (data.slice span.1 span.2)).1
  flags : a.flags = (Le.u16At (data.slice span.1 span.2) 12).getD 0
  body : attributeBody (data.slice span.1 span.2) span.1 = some a.body

/-- The bytes that a body shows are bytes of the record between `start` and `stop`. -/
def AttrBody.Within (data : Bytes) (start stop : Nat) : AttrBody → Prop
  | .resident value off =>
    start ≤ off ∧ off + value.length ≤ stop ∧ value = data.slice off (off + value.length)
  | .nonResident _ _ _ _ runlist =>
    start + runlist.length ≤ stop ∧ runlist = data.slice (stop - runlist.length) stop

variable {data attr : Bytes} {start stop fuel pos : Nat} {complete : Bool}

theorem attributeName_inside : (attributeName attr).2 = true ↔ NameInside attr := by
  unfold attributeName NameInside
  dsimp only
  split
  · split
    · simp_all
    · simp_all
      omega
  · simp
    omega

theorem attributeBody_isSome (hheader : 24 ≤ attr.length) :
    (attributeBody attr pos).isSome = true ↔ BodyInside attr := by
  have hinit : 64 ≤ attr.length →
      (Le.u64At attr 56).getD ((Le.u64At attr 48).getD 0) = (Le.u64At attr 56).getD 0 := by
    intro hlength
    unfold Le.u64At Bytes.getRange?
    rw [if_pos (by omega)]
    rfl
  unfold attributeBody BodyInside
  by_cases hresident : (Le.u8At attr 8).getD 0 = 0
  · rw [if_neg (not_not.mpr hresident), if_pos hresident]
    dsimp only
    split
    · simp
      omega
    · simp
      omega
  · rw [if_pos hresident, if_neg hresident]
    split
    · simp
      omega
    · next hlength =>
      dsimp only
      rw [hinit (by omega)]
      split
      · simp
        omega
      · simp
        omega

/-- The body of an attribute is cut out of it. -/
theorem attributeBody_within {body : AttrBody} (hstart : start ≤ stop) (hstop : stop ≤ data.length)
    (h : attributeBody (data.slice start stop) start = some body) :
    body.Within data start stop := by
  have hlength : (data.slice start stop).length = stop - start := by
    rw [Bytes.length_slice]
    omega
  unfold attributeBody at h
  split at h
  · split at h
    · cases h
    · dsimp only at h
      split at h
      · cases h
      · next hbounds =>
        cases h
        rw [hlength] at hbounds
        generalize (Le.u16At (data.slice start stop) 32).getD 0 = runOff at hbounds ⊢
        have hrunlist : (data.slice start stop).slice runOff (data.slice start stop).length =
            data.slice (start + runOff) stop := by
          rw [hlength, Bytes.slice_slice _ (Nat.le_refl _), Nat.add_sub_cancel' hstart]
        have hlen : (data.slice (start + runOff) stop).length = stop - (start + runOff) := by
          rw [Bytes.length_slice]
          omega
        rw [hrunlist]
        show start + (data.slice (start + runOff) stop).length ≤ stop ∧ _ = data.slice _ stop
        rw [hlen, Nat.sub_sub_self (by omega)]
        exact ⟨by omega, rfl⟩
  · dsimp only at h
    split at h
    · cases h
    · next hbounds =>
      cases h
      rw [hlength] at hbounds
      generalize (Le.u16At (data.slice start stop) 20).getD 0 = valueOff at hbounds ⊢
      generalize (Le.u32At (data.slice start stop) 16).getD 0 = valueLen at hbounds ⊢
      have hvalue : (data.slice start stop).slice valueOff (valueOff + valueLen) =
          data.slice (start + valueOff) (start + valueOff + valueLen) := by
        rw [Bytes.slice_slice _ (by omega), Nat.add_assoc]
      have hlen : (data.slice (start + valueOff) (start + valueOff + valueLen)).length =
          valueLen := by
        rw [Bytes.length_slice]
        omega
      rw [hvalue]
      show start ≤ start + valueOff ∧ start + valueOff + (data.slice _ _).length ≤ stop ∧
        _ = data.slice _ _
      rw [hlen]
      exact ⟨by omega, by omega, rfl⟩

/-! ## The loop -/

/-- A round of the loop at an attribute whose header is in order. -/
theorem attributesFrom_step {typeId attrLen : Nat} (htype : Le.u32At data pos = some typeId)
    (hend : typeId ≠ attrEnd) (hlen : Le.u32At data (pos + 4) = some attrLen)
    (hheader : 24 ≤ attrLen) (hinside : pos + attrLen ≤ data.length) :
    attributesFrom data (fuel + 1) pos complete =
      (attributeBody (data.slice pos (pos + attrLen)) pos).elim
        (attributesFrom data fuel (pos + attrLen) false) fun body =>
          (⟨typeId, (attributeName (data.slice pos (pos + attrLen))).1,
              (Le.u16At (data.slice pos (pos + attrLen)) 12).getD 0, body⟩ ::
            (attributesFrom data fuel (pos + attrLen)
              (complete && (attributeName (data.slice pos (pos + attrLen))).2)).1,
          (attributesFrom data fuel (pos + attrLen)
            (complete && (attributeName (data.slice pos (pos + attrLen))).2)).2) := by
  rw [attributesFrom, htype]
  dsimp only
  rw [if_neg hend, hlen]
  dsimp only
  rw [if_neg (by omega)]
  cases attributeBody (data.slice pos (pos + attrLen)) pos <;> rfl

/-- Without a header in order the loop is over: at the end marker, or incompletely. -/
theorem attributesFrom_over
    (h : ¬∃ typeId attrLen, Le.u32At data pos = some typeId ∧ typeId ≠ attrEnd ∧
      Le.u32At data (pos + 4) = some attrLen ∧ 24 ≤ attrLen ∧ pos + attrLen ≤ data.length) :
    attributesFrom data (fuel + 1) pos complete =
      ([], complete && decide (Le.u32At data pos = some attrEnd)) := by
  rw [attributesFrom]
  cases htype : Le.u32At data pos with
  | none => simp
  | some typeId =>
    dsimp only
    by_cases hend : typeId = attrEnd
    · rw [if_pos hend, hend]
      simp
    · rw [if_neg hend]
      have hdone : (complete && decide (some typeId = some attrEnd)) = false := by simp [hend]
      rw [hdone]
      cases hlen : Le.u32At data (pos + 4) with
      | none => rfl
      | some attrLen =>
        dsimp only
        rw [if_pos]
        by_contra hbounds
        exact h ⟨typeId, attrLen, htype, hend, hlen, by omega, by omega⟩

/-- The attributes returned are read from spans of the record, in order. -/
theorem attributesFrom_spans (data : Bytes) (fuel pos : Nat) (complete : Bool) :
    ∃ spans, List.Forall₂ (fun span a => ReadsAs data span a ∧ a.body.Within data span.1 span.2)
        spans (attributesFrom data fuel pos complete).1 ∧
      (∀ span ∈ spans, pos ≤ span.1 ∧ span.1 < span.2 ∧ span.2 ≤ data.length) ∧
      spans.Pairwise fun span next => span.2 ≤ next.1 := by
  -- on the fuel; each attribute starts where the one before it stops
  induction fuel generalizing pos complete with
  | zero => exact ⟨[], .nil, fun span hspan => (by cases hspan), .nil⟩
  | succ fuel ih =>
    by_cases hheader : ∃ typeId attrLen, Le.u32At data pos = some typeId ∧ typeId ≠ attrEnd ∧
      Le.u32At data (pos + 4) = some attrLen ∧ 24 ≤ attrLen ∧ pos + attrLen ≤ data.length
    · obtain ⟨typeId, attrLen, htype, hend, hlen, hlow, hinside⟩ := hheader
      rw [attributesFrom_step htype hend hlen hlow hinside]
      cases hbody : attributeBody (data.slice pos (pos + attrLen)) pos with
      | none =>
        obtain ⟨spans, hreads, hbounds, hordered⟩ := ih (pos + attrLen) false
        refine ⟨spans, hreads, fun span hspan => ?_, hordered⟩
        have := hbounds span hspan
        exact ⟨by omega, this.2⟩
      | some body =>
        obtain ⟨spans, hreads, hbounds, hordered⟩ := ih (pos + attrLen)
          (complete && (attributeName (data.slice pos (pos + attrLen))).2)
        refine ⟨(pos, pos + attrLen) :: spans, .cons ⟨⟨htype, rfl, rfl, hbody⟩, ?_⟩ hreads, ?_,
          List.pairwise_cons.mpr ⟨fun span hspan => (hbounds span hspan).1, hordered⟩⟩
        · exact attributeBody_within (Nat.le_add_right _ _) hinside hbody
        · intro span hspan
          cases List.mem_cons.mp hspan with
          | inl heq =>
            rw [heq]
            exact ⟨Nat.le_refl _, by show pos < pos + attrLen; omega, hinside⟩
          | inr hmem =>
            have := hbounds span hmem
            exact ⟨by omega, this.2⟩
    · rw [attributesFrom_over hheader]
      exact ⟨[], .nil, fun span hspan => (by cases hspan), .nil⟩

/-- A header that is in order, with a name and a body inside the attribute. -/
theorem attributeAt_of {typeId attrLen : Nat} (htype : Le.u32At data pos = some typeId)
    (hend : typeId ≠ attrEnd) (hlen : Le.u32At data (pos + 4) = some attrLen)
    (hheader : 24 ≤ attrLen) (hinside : pos + attrLen ≤ data.length)
    (hname : (attributeName (data.slice pos (pos + attrLen))).2 = true)
    (hbody : (attributeBody (data.slice pos (pos + attrLen)) pos).isSome = true) :
    AttributeAt data pos (pos + attrLen) where
  type := ⟨typeId, htype, hend⟩
  length := by rw [hlen, Nat.add_sub_cancel_left]
  header := by omega
  inside := hinside
  name := attributeName_inside.mp hname
  body := (attributeBody_isSome (by rw [Bytes.length_slice]; omega)).mp hbody

/-- The flag stays set over well-formed attributes only, and is set at the end marker. -/
theorem attributesFrom_wellFormed (h : (attributesFrom data fuel pos complete).2 = true) :
    complete = true ∧ ∃ spans, spans.length < fuel ∧ Attributes data pos spans := by
  induction fuel generalizing pos complete with
  | zero => cases h
  | succ fuel ih =>
    by_cases hheader : ∃ typeId attrLen, Le.u32At data pos = some typeId ∧ typeId ≠ attrEnd ∧
      Le.u32At data (pos + 4) = some attrLen ∧ 24 ≤ attrLen ∧ pos + attrLen ≤ data.length
    · obtain ⟨typeId, attrLen, htype, hend, hlen, hlow, hinside⟩ := hheader
      rw [attributesFrom_step htype hend hlen hlow hinside] at h
      cases hbody : attributeBody (data.slice pos (pos + attrLen)) pos with
      | none =>
        rw [hbody] at h
        cases (ih h).1
      | some body =>
        rw [hbody] at h
        obtain ⟨hcomplete, spans, hlength, hrest⟩ := ih h
        rw [Bool.and_eq_true] at hcomplete
        have hattribute := attributeAt_of htype hend hlen hlow hinside hcomplete.2
          (by rw [hbody]; rfl)
        exact ⟨hcomplete.1, (pos, pos + attrLen) :: spans, Nat.succ_lt_succ hlength,
          .cons hattribute hrest⟩
    · rw [attributesFrom_over hheader, Bool.and_eq_true, decide_eq_true_eq] at h
      exact ⟨h.1, [], Nat.zero_lt_succ _, .done h.2⟩

/-- Well-formed attributes up to the end marker are all returned, with the flag set. -/
theorem Attributes.attributesFrom {spans : List (Nat × Nat)} (h : Attributes data pos spans)
    (hfuel : spans.length < fuel) :
    (Ntfs.attributesFrom data fuel pos true).2 = true ∧
      List.Forall₂ (ReadsAs data) spans (Ntfs.attributesFrom data fuel pos true).1 := by
  -- on the layout, so the loop meets the headers it describes
  induction h generalizing fuel with
  | @done pos hend =>
    obtain ⟨fuel, rfl⟩ := Nat.exists_eq_add_of_le' (Nat.succ_le_of_lt hfuel)
    have hover : ¬∃ typeId attrLen, Le.u32At data pos = some typeId ∧ typeId ≠ attrEnd ∧
        Le.u32At data (pos + 4) = some attrLen ∧ 24 ≤ attrLen ∧ pos + attrLen ≤ data.length := by
      intro ⟨typeId, attrLen, htype, hne, _⟩
      rw [hend] at htype
      exact hne (Option.some.inj htype).symm
    have hloop := @attributesFrom_over data fuel pos true hover
    rw [hend, decide_eq_true rfl] at hloop
    show (Ntfs.attributesFrom data (fuel + 1) pos true).2 = true ∧
      List.Forall₂ (ReadsAs data) [] (Ntfs.attributesFrom data (fuel + 1) pos true).1
    rw [hloop]
    exact ⟨rfl, .nil⟩
  | @cons pos stop spans hattribute hrest ih =>
    obtain ⟨fuel, rfl⟩ := Nat.exists_eq_add_of_le' (Nat.lt_of_le_of_lt (Nat.zero_le _) hfuel)
    obtain ⟨typeId, htype, hne⟩ := hattribute.type
    have hheader := hattribute.header
    have hinside := hattribute.inside
    have hstop : pos + (stop - pos) = stop := by omega
    have hlength : 24 ≤ (data.slice pos stop).length := by
      rw [Bytes.length_slice]
      omega
    obtain ⟨body, hbody⟩ := Option.isSome_iff_exists.mp
      ((@attributeBody_isSome _ pos hlength).mpr hattribute.body)
    rw [attributesFrom_step htype hne hattribute.length (by omega) (by omega), hstop, hbody,
      attributeName_inside.mpr hattribute.name]
    obtain ⟨hflag, hreads⟩ := ih (Nat.lt_of_succ_lt_succ hfuel)
    exact ⟨hflag, .cons ⟨htype, rfl, rfl, hbody⟩ hreads⟩

/-! ## Slices -/

/-- `attributeName`, where a slice out of range is a panic: `none`. -/
def checkedName (attr : Bytes) : Option (Option String × Bool) :=
  let nameLen := (Le.u8At attr 9).getD 0
  let nameOff := (Le.u16At attr 10).getD 0
  if nameLen > 0 then
    let nameEnd := nameOff + nameLen * 2
    if nameEnd ≤ attr.length then do
      let units ← attr.getRange? nameOff nameEnd
      return (some (String.ofList (fromUtf16Lossy (utf16Units units))), true)
    else some (none, false)
  else some (none, true)

/-- `attributeBody`, likewise. -/
def checkedBody (data attr : Bytes) (pos attrLen : Nat) : Option (Option AttrBody) :=
  if (Le.u8At attr 8).getD 0 ≠ 0 then
    if attr.length < 64 then some none
    else
      let startingVcn := (Le.u64At attr 16).getD 0
      let runOff := (Le.u16At attr 32).getD 0
      let allocatedSize := (Le.u64At attr 40).getD 0
      let dataSize := (Le.u64At attr 48).getD 0
      let initializedSize := (Le.u64At attr 56).getD dataSize
      if ¬(64 ≤ runOff ∧ runOff < attr.length) ∨ initializedSize > dataSize then some none
      else do
        let runlist ← data.getRange? (pos + runOff) (pos + attrLen)
        return some (.nonResident startingVcn dataSize initializedSize allocatedSize runlist)
  else
    let valueLen := (Le.u32At attr 16).getD 0
    let valueOff := (Le.u16At attr 20).getD 0
    let valueEnd := valueOff + valueLen
    if valueOff < 24 ∨ valueEnd > attr.length then some none
    else do
      let value ← data.getRange? (pos + valueOff) (pos + valueEnd)
      return some (.resident value (pos + valueOff))

/-- The loop of `iter_attributes`, likewise. -/
def checkedAttributesFrom (data : Bytes) : Nat → Nat → Bool → Option (List Attribute × Bool)
  | 0, _, _ => some ([], false)
  | fuel + 1, pos, complete =>
    match Le.u32At data pos with
    | none => some ([], false)
    | some typeId =>
      if typeId = attrEnd then some ([], complete)
      else match Le.u32At data (pos + 4) with
        | none => some ([], false)
        | some attrLen =>
          let attrStop := pos + attrLen
          if attrLen < 24 ∨ attrStop > data.length then some ([], false)
          else do
            let attr ← data.getRange? pos attrStop
            let flags := (Le.u16At attr 12).getD 0
            let name ← checkedName attr
            match ← checkedBody data attr pos attrLen with
            | none => checkedAttributesFrom data fuel attrStop false
            | some body =>
              let rest ← checkedAttributesFrom data fuel attrStop (complete && name.2)
              return (⟨typeId, name.1, flags, body⟩ :: rest.1, rest.2)

def checkedIterAttributes (record : FileRecord) : Option (List Attribute × Bool) :=
  checkedAttributesFrom record.data 256 record.attrsOffset true

theorem checkedName_eq (attr : Bytes) : checkedName attr = some (attributeName attr) := by
  unfold checkedName attributeName
  dsimp only
  split
  · split
    · next hinside =>
      rw [Bytes.getRange?, if_pos ⟨Nat.le_add_right _ _, hinside⟩]
      rfl
    · rfl
  · rfl

theorem checkedBody_eq {attrLen : Nat} (hinside : pos + attrLen ≤ data.length) :
    checkedBody data (data.slice pos (pos + attrLen)) pos attrLen =
      some (attributeBody (data.slice pos (pos + attrLen)) pos) := by
  have hlength : (data.slice pos (pos + attrLen)).length = attrLen := by
    rw [Bytes.length_slice]
    omega
  unfold checkedBody attributeBody
  split
  · split
    · rfl
    · dsimp only
      split
      · rfl
      · next hbounds =>
        rw [hlength] at hbounds ⊢
        rw [Bytes.getRange?, if_pos ⟨by omega, hinside⟩, Bytes.slice_slice _ (by omega)]
        rfl
  · dsimp only
    split
    · rfl
    · next hbounds =>
      rw [hlength] at hbounds
      rw [Bytes.getRange?, if_pos ⟨by omega, by omega⟩, Bytes.slice_slice _ (by omega)]
      rfl

/-- No slice is taken out of range. -/
theorem checkedAttributesFrom_eq (data : Bytes) (fuel pos : Nat) (complete : Bool) :
    checkedAttributesFrom data fuel pos complete =
      some (attributesFrom data fuel pos complete) := by
  -- on the fuel; the bounds tested before make every checked slice succeed
  induction fuel generalizing pos complete with
  | zero => rfl
  | succ fuel ih =>
    unfold checkedAttributesFrom attributesFrom
    cases Le.u32At data pos with
    | none => rfl
    | some typeId =>
      dsimp only
      split
      · rfl
      · cases Le.u32At data (pos + 4) with
        | none => rfl
        | some attrLen =>
          dsimp only
          split
          · rfl
          · next hbounds =>
            rw [Bytes.getRange?, if_pos ⟨by omega, by omega⟩]
            simp only [Option.bind_eq_bind, Option.bind_some, checkedName_eq]
            rw [checkedBody_eq (by omega), Option.bind_some]
            cases attributeBody (data.slice pos (pos + attrLen)) pos with
            | none => exact ih _ _
            | some body =>
              dsimp only
              rw [ih, Option.bind_some]
              rfl

/-! ## The whole record -/

/-- The attributes of a record, and what its flag says. -/
theorem iterAttributes_exact (record : FileRecord) :
    checkedIterAttributes record = some (iterAttributes record) ∧
    (∃ spans, List.Forall₂
        (fun span a => ReadsAs record.data span a ∧ a.body.Within record.data span.1 span.2)
        spans (iterAttributes record).1 ∧
      (∀ span ∈ spans, record.attrsOffset ≤ span.1 ∧ span.1 < span.2 ∧
        span.2 ≤ record.data.length) ∧
      spans.Pairwise fun span next => span.2 ≤ next.1) ∧
    ((iterAttributes record).2 = true ↔
      ∃ spans, spans.length < 256 ∧ Attributes record.data record.attrsOffset spans) ∧
    ∀ spans, spans.length < 256 → Attributes record.data record.attrsOffset spans →
      List.Forall₂ (ReadsAs record.data) spans (iterAttributes record).1 := by
  refine ⟨checkedAttributesFrom_eq _ _ _ _, attributesFrom_spans _ _ _ _, ⟨?_, ?_⟩, ?_⟩
  · intro h
    exact (attributesFrom_wellFormed h).2
  · intro ⟨spans, hlength, h⟩
    exact (h.attributesFrom hlength).1
  · intro spans hlength h
    exact (h.attributesFrom hlength).2

/-- A record with an empty resident attribute of type 16, followed by the end marker. -/
def oneAttribute : FileRecord where
  data := Bytes.ofLE 4 16 ++ Bytes.ofLE 4 24 ++ List.replicate 12 0 ++ Bytes.ofLE 4 24 ++
    List.replicate 4 0xFF
  sequence := 1
  hardLinkCount := 1
  attrsOffset := 0
  inUse := true
  isDirectory := false
  bytesUsed := 28
  baseRecord := 0

theorem iterAttributes_exact_one :
    ∃ a, (iterAttributes oneAttribute).1 = [a] ∧ a.typeId = 16 ∧
      (iterAttributes oneAttribute).2 = true := by
  obtain ⟨-, -, hflag, hall⟩ := iterAttributes_exact oneAttribute
  have hattributes : Attributes oneAttribute.data oneAttribute.attrsOffset [(0, 24)] := by
    refine .cons ⟨⟨16, by decide +kernel, by decide⟩, by decide +kernel, by decide,
      by decide +kernel, .inl (by decide +kernel), ?_⟩ (.done (by decide +kernel))
    unfold BodyInside
    decide +kernel
  have hread := hall [(0, 24)] (by decide) hattributes
  have hcomplete := hflag.mpr ⟨[(0, 24)], by decide, hattributes⟩
  cases hattrs : (iterAttributes oneAttribute).1 with
  | nil =>
    rw [hattrs] at hread
    cases hread
  | cons a attrs =>
    rw [hattrs] at hread
    cases hread with
    | cons hreads hrest =>
      cases hrest
      have htype : Le.u32At oneAttribute.data 0 = some 16 := by decide +kernel
      exact ⟨a, rfl, Option.some.inj (hreads.typeId.symm.trans htype), hcomplete⟩

end Undelete.Ntfs
