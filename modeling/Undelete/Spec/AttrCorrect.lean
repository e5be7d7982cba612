import Undelete.Native.Ntfs.Attr
import Undelete.Spec.RunsCorrect

/-!
# Attributes and the streams they become

`iterAttributes` cuts resident values out of the record, and `extractDataStreams` keeps
a `$DATA` attribute as a stream, in order, unless its run list is rejected.

## Key results

- `iterAttributes_resident`: a resident value is the slice of the record at its offset.
- `find?_extractDataStreams`: the main stream comes from the first usable fragment.
- `extractDataStreams_fit`: the run lists of the streams fit the volume.
-/

namespace Undelete.Ntfs

open Except

variable {totalClusters : Nat} {attrs : List Attribute} {a : Attribute} {s : DataStream}

/-! ## Resident values -/

theorem attributeBody_resident {attr value : Bytes} {pos off : Nat}
    (h : attributeBody attr pos = some (.resident value off)) :
    ∃ valueOff, off = pos + valueOff ∧ valueOff + value.length ≤ attr.length ∧
      value = attr.slice valueOff (valueOff + value.length) ∧ value.length < 2 ^ 32 := by
  simp only [attributeBody] at h
  split at h
  · simp only [Option.ite_none_left_eq_some, Option.some.injEq, reduceCtorEq, and_false] at h
  · simp only [Option.ite_none_left_eq_some, Option.some.injEq, AttrBody.resident.injEq, not_or,
      Nat.not_lt] at h
    obtain ⟨⟨_, hle⟩, hvalue, rfl⟩ := h
    have hlt := Le.u32At_lt attr 16
    generalize (Le.u16At attr 20).getD 0 = valueOff at *
    generalize (Le.u32At attr 16).getD 0 = valueLen at *
    have hlength : value.length = valueLen := by
      rw [← hvalue, Bytes.length_slice]; omega
    exact ⟨valueOff, rfl, by omega, by rw [hlength, hvalue], by omega⟩

theorem attributesFrom_resident {data value : Bytes} {fuel pos off : Nat} {complete : Bool}
    (ha : a ∈ (attributesFrom data fuel pos complete).1) (hbody : a.body = .resident value off) :
    off + value.length ≤ data.length ∧ value = data.slice off (off + value.length) ∧
      value.length < 2 ^ 32 := by
  induction fuel generalizing pos complete with
  | zero => cases ha
  | succ fuel ih =>
    simp only [attributesFrom] at ha
    split at ha
    · cases ha
    · split at ha
      · cases ha
      · split at ha
        · cases ha
        · next attrLen _ =>
          split at ha
          · cases ha
          · next hbounds =>
            split at ha
            · exact ih ha
            · next body hattr =>
              rcases List.mem_cons.mp ha with rfl | ha
              · obtain rfl : body = .resident value off := hbody
                obtain ⟨valueOff, rfl, hle, hvalue, hlt⟩ := attributeBody_resident hattr
                rw [Bytes.length_slice] at hle
                rw [Bytes.slice_slice _ (by omega)] at hvalue
                exact ⟨by omega, by rw [Nat.add_assoc]; exact hvalue, hlt⟩
              · exact ih ha

/-- A resident value is the slice of the fixed-up record at its offset. -/
theorem iterAttributes_resident {record : FileRecord} {value : Bytes} {off : Nat}
    (ha : a ∈ (iterAttributes record).1) (hbody : a.body = .resident value off) :
    off + value.length ≤ record.data.length ∧
      value = record.data.slice off (off + value.length) ∧ value.length < 2 ^ 32 :=
  attributesFrom_resident ha hbody

/-! ## Attribute headers -/

/-- What a record says about one attribute: its type, its name, and the attribute itself
    when its body is well formed. -/
structure AttributeHeader where
  typeId : Nat
  name : Option String
  parsed : Option Attribute
deriving DecidableEq, Repr

/-- The attribute headers from `pos` on, malformed attributes included. One whose length
    is out of bounds is the last. -/
def attributeHeadersFrom (data : Bytes) : Nat → Nat → List AttributeHeader
  | 0, _ => []
  | fuel + 1, pos =>
    match Le.u32At data pos with
    | none => []
    | some typeId =>
      if typeId = attrEnd then []
      else
        let attrLen := (Le.u32At data (pos + 4)).getD 0
        if attrLen < 24 ∨ pos + attrLen > data.length then
          [⟨typeId, (attributeName (data.drop pos)).1, none⟩]
        else
          let attr := data.slice pos (pos + attrLen)
          let name := (attributeName attr).1
          let flags := (Le.u16At attr 12).getD 0
          ⟨typeId, name, (attributeBody attr pos).map (⟨typeId, name, flags, ·⟩)⟩ ::
            attributeHeadersFrom data fuel (pos + attrLen)

/-- The headers of all attributes of a record; every attribute takes up at least one of
    its bytes. -/
def attributeHeaders (record : FileRecord) : List AttributeHeader :=
  attributeHeadersFrom record.data record.data.length record.attrsOffset

theorem attributesFrom_header {data : Bytes} {fuel fuel' pos : Nat} {complete : Bool}
    (ha : a ∈ (attributesFrom data fuel pos complete).1) (hfuel : data.length ≤ pos + fuel') :
    ⟨a.typeId, a.name, some a⟩ ∈ attributeHeadersFrom data fuel' pos := by
  induction fuel generalizing pos complete fuel' with
  | zero => cases ha
  | succ fuel ih =>
    simp only [attributesFrom] at ha
    split at ha
    · cases ha
    · next typeId htype =>
      split at ha
      · cases ha
      · next hend =>
        split at ha
        · cases ha
        · next attrLen hlen =>
          split at ha
          · cases ha
          · next hbounds =>
            -- the attribute takes up fuel
            obtain ⟨fuel', rfl⟩ : ∃ k, fuel' = k + 1 := ⟨fuel' - 1, by omega⟩
            simp only [attributeHeadersFrom, htype, if_neg hend, hlen, Option.getD_some,
              if_neg hbounds]
            split at ha
            · exact List.mem_cons_of_mem _ (ih ha (by omega))
            · next body hbody =>
              rcases List.mem_cons.mp ha with rfl | ha
              · rw [hbody]
                exact List.mem_cons_self
              · exact List.mem_cons_of_mem _ (ih ha (by omega))

/-- Every attribute the parser returns has a header. -/
theorem iterAttributes_header {record : FileRecord} (ha : a ∈ (iterAttributes record).1) :
    ⟨a.typeId, a.name, some a⟩ ∈ attributeHeaders record :=
  attributesFrom_header ha (Nat.le_add_left _ _)

/-! ## Streams -/

theorem extractDataStreams_cons (a : Attribute) (attrs : List Attribute) :
    extractDataStreams totalClusters (a :: attrs) =
      if a.typeId ≠ attrData then extractDataStreams totalClusters attrs
      else match dataStreamOf a totalClusters with
        | .ok stream => (stream :: (extractDataStreams totalClusters attrs).1,
            (extractDataStreams totalClusters attrs).2)
        | .error e => ((extractDataStreams totalClusters attrs).1,
            .malformedRunlist e :: (extractDataStreams totalClusters attrs).2) := rfl

/-- The streams, as a filter of the attributes. -/
theorem extractDataStreams_eq (attrs : List Attribute) :
    (extractDataStreams totalClusters attrs).1 =
      (attrs.filter (·.typeId = attrData)).filterMap fun a =>
        (dataStreamOf a totalClusters).toOption := by
  induction attrs with
  | nil => rfl
  | cons a attrs ih =>
    rw [extractDataStreams_cons]
    by_cases hdata : a.typeId = attrData
    · rw [if_neg (Decidable.not_not.mpr hdata), List.filter_cons_of_pos (by simpa using hdata),
        List.filterMap_cons]
      cases dataStreamOf a totalClusters <;> simp [Except.toOption, ih]
    · rw [if_pos hdata, List.filter_cons_of_neg (by simpa using hdata), ih]

/-- The streams are those of the usable `$DATA` attributes. -/
theorem mem_extractDataStreams :
    s ∈ (extractDataStreams totalClusters attrs).1 ↔
      ∃ a ∈ attrs, a.typeId = attrData ∧ dataStreamOf a totalClusters = .ok s := by
  simp only [extractDataStreams_eq, List.mem_filterMap, List.mem_filter, decide_eq_true_eq,
    toOption_eq_some, and_assoc]

theorem extractDataStreams_append (attrs attrs' : List Attribute) :
    (extractDataStreams totalClusters (attrs ++ attrs')).1 =
      (extractDataStreams totalClusters attrs).1 ++
      (extractDataStreams totalClusters attrs').1 := by
  simp only [extractDataStreams_eq, List.filter_append, List.filterMap_append]

theorem extractDataStreams_flatMap {α : Type} (f : α → List Attribute) (xs : List α) :
    (extractDataStreams totalClusters (xs.flatMap f)).1 =
      xs.flatMap fun x => (extractDataStreams totalClusters (f x)).1 := by
  induction xs with
  | nil => simp [extractDataStreams]
  | cons x xs ih => rw [List.flatMap_cons, List.flatMap_cons, extractDataStreams_append, ih]

/-- The data size an attribute declares. -/
def AttrBody.dataSize : AttrBody → Nat
  | .resident value _ => value.length
  | .nonResident _ dataSize _ _ _ => dataSize

def DataStreamKind.dataSize : DataStreamKind → Nat
  | .resident _ len => len
  | .nonResident dataSize _ _ => dataSize

/-! ## What a header shows -/

/-- The `$FILE_NAME` an attribute holds. -/
def Attribute.fileName (a : Attribute) : Option FileNameAttr :=
  match a.body with
  | .resident value _ => parseFileName value
  | .nonResident .. => none

def AttributeHeader.fileName (h : AttributeHeader) : Option FileNameAttr :=
  h.parsed.bind Attribute.fileName

/-- The stream the attribute can be turned into. -/
def AttributeHeader.dataStream (totalClusters : Nat) (h : AttributeHeader) : Option DataStream :=
  h.parsed.bind fun a => (dataStreamOf a totalClusters).toOption

/-- The attribute can be turned into a stream. -/
def AttributeHeader.usable (totalClusters : Nat) (h : AttributeHeader) : Bool :=
  (h.dataStream totalClusters).isSome

/-- The data size the attribute declares, when its body is well formed. -/
def AttributeHeader.dataSize (h : AttributeHeader) : Option Nat := h.parsed.map (·.body.dataSize)

/-! ## The main fragment -/

/-- The attribute is unnamed `$DATA` and can be used as a stream. -/
def isMainFragment (totalClusters : Nat) (a : Attribute) : Bool :=
  a.typeId = attrData && a.name.isNone && (dataStreamOf a totalClusters).toOption.isSome

theorem isMainFragment_iff :
    isMainFragment totalClusters a = true ↔
      a.typeId = attrData ∧ a.name = none ∧ ∃ s, dataStreamOf a totalClusters = .ok s := by
  simp only [isMainFragment, Bool.and_eq_true, decide_eq_true_eq, Option.isNone_iff_eq_none,
    and_assoc]
  cases dataStreamOf a totalClusters <;> simp [Except.toOption]

theorem dataStreamOf_name (h : dataStreamOf a totalClusters = .ok s) :
    s.name = a.name ∧ s.flags = a.flags := by
  simp only [dataStreamOf] at h
  split at h
  · cases h; exact ⟨rfl, rfl⟩
  · obtain ⟨runs, _, rfl⟩ := map_eq_ok.mp h
    exact ⟨rfl, rfl⟩

theorem dataStreamOf_dataSize (h : dataStreamOf a totalClusters = .ok s) :
    s.kind.dataSize = a.body.dataSize := by
  simp only [dataStreamOf] at h
  split at h
  · next hbody => cases h; rw [hbody]; rfl
  · next hbody =>
    obtain ⟨runs, _, rfl⟩ := map_eq_ok.mp h
    rw [hbody]; rfl

theorem dataStreamOf_resident {off n : Nat} (h : dataStreamOf a totalClusters = .ok s)
    (hkind : s.kind = .resident off n) :
    ∃ value, a.body = .resident value off ∧ value.length = n := by
  simp only [dataStreamOf] at h
  split at h
  · next value off' hbody =>
    cases h
    cases hkind
    exact ⟨value, hbody, rfl⟩
  · obtain ⟨runs, _, rfl⟩ := map_eq_ok.mp h
    cases hkind

theorem dataStreamOf_nonResident {dataSize initializedSize : Nat} {runs : List RunElement}
    (h : dataStreamOf a totalClusters = .ok s)
    (hkind : s.kind = .nonResident dataSize initializedSize runs) :
    ∃ startingVcn allocatedSize runlist,
      a.body = .nonResident startingVcn dataSize initializedSize allocatedSize runlist ∧
      decodeRunlist runlist totalClusters = .ok runs := by
  simp only [dataStreamOf] at h
  split at h
  · cases h; cases hkind
  · next hbody =>
    obtain ⟨runs', hruns, rfl⟩ := map_eq_ok.mp h
    cases hkind
    exact ⟨_, _, _, hbody, hruns⟩

/-- The first unnamed stream is the one of the first main fragment. -/
theorem find?_extractDataStreams :
    (extractDataStreams totalClusters attrs).1.find? (fun s => s.name.isNone) =
      (attrs.find? (isMainFragment totalClusters)).bind fun a =>
        (dataStreamOf a totalClusters).toOption := by
  induction attrs with
  | nil => rfl
  | cons a attrs ih =>
    rw [extractDataStreams_cons, List.find?_cons]
    by_cases hdata : a.typeId = attrData
    · rw [if_neg (Decidable.not_not.mpr hdata)]
      cases hstream : dataStreamOf a totalClusters with
      | error e => simp [isMainFragment, hstream, Except.toOption, ih]
      | ok s =>
        have hname := (dataStreamOf_name hstream).1
        cases hnone : a.name with
        | none => simp [isMainFragment, hdata, hnone, hname, hstream, Except.toOption]
        | some name => simp [isMainFragment, hnone, hname, ih]
    · simp [hdata, isMainFragment, ih]

/-! ## Streams that fit the volume -/

/-- The run list of a non-resident stream was accepted for the volume. -/
theorem dataStreamOf_fit (h : dataStreamOf a totalClusters = .ok s) {dataSize initializedSize : Nat}
    {runs : List RunElement} (hkind : s.kind = .nonResident dataSize initializedSize runs) :
    RunsFit totalClusters runs := by
  obtain ⟨_, _, _, _, hruns⟩ := dataStreamOf_nonResident h hkind
  exact decodeRunlist_fit hruns

/-- Every run list among the streams fits the volume. -/
def StreamsFit (totalClusters : Nat) (streams : List DataStream) : Prop :=
  ∀ s ∈ streams, ∀ dataSize initializedSize runs,
    s.kind = .nonResident dataSize initializedSize runs → RunsFit totalClusters runs

theorem extractDataStreams_fit :
    StreamsFit totalClusters (extractDataStreams totalClusters attrs).1 := by
  intro s hs dataSize initializedSize runs hkind
  obtain ⟨a, _, _, hstream⟩ := mem_extractDataStreams.mp hs
  exact dataStreamOf_fit hstream hkind

end Undelete.Ntfs
