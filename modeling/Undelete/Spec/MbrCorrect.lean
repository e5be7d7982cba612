import Undelete.ForStd.Except
import Undelete.ForStd.Linked
import Undelete.Native.Partition.Mbr
import Undelete.Native.Source

/-!
# What a quiet partition table lists

An image lists partitions in the entries of its first sector and in the boot records of its
extended chains. A table without warnings should list all of them, and a chain that is cut
should leave a warning. The parser keeps this promise except on one kind of image: when a
chain goes on behind its 128th boot record and nothing else is wrong, the rest of the chain
is dropped in silence.

## Key results

- `followChain_linked`: the inner loop follows the links of the chain.
- `followChain_outcome`: how one chain ends.
- `pushAll_quiet`, `pushAll_warnings`: which entries become partitions.
- `parseMbr_complete_iff`: the images on which the promise is kept.
-/

namespace Undelete.Partition

open Except

/-! ## What an image lists -/

/-- An entry with the absolute address of its first sector. -/
structure Listed where
  lba : Nat
  sectors : Nat
  partType : Nat
deriving DecidableEq, Repr

/-- The entries of the first sector, which is read whole. -/
def mbrEntries (reader : SourceReader) (sector : Nat) : Option (Vector RawEntry 4) := do
  let buf ← (reader.readVecAt 0 (max sector 512)).toOption
  parseEntries buf

/-- The entries of the boot record at sector `c`, if there is one. -/
def ebrAt (reader : SourceReader) (sector c : Nat) : Option (Vector RawEntry 4) :=
  if c * sector + 512 ≤ reader.len then do
    let buf ← (reader.readVecAt (c * sector) 512).toOption
    parseEntries buf
  else none

/-- The sector the second entry links to, relative to the base of the chain. -/
def linkOf (extBase : Nat) (entries : Vector RawEntry 4) : Option Nat :=
  if (entries.get 1).isExtended ∧ (entries.get 1).sectors ≠ 0 then
    some (extBase + (entries.get 1).lbaStart)
  else none

/-- The boot records of the chain at `extBase`, from sector `c` on. -/
abbrev Chain (reader : SourceReader) (sector extBase c : Nat)
    (ebrs : List (Nat × Vector RawEntry 4)) (stop : Option Nat) : Prop :=
  Linked (ebrAt reader sector) (linkOf extBase) c ebrs stop

/-- A primary entry that is not empty and starts no chain. -/
def primaryOf (e : RawEntry) : Option Listed :=
  if e.partType = 0 ∨ e.sectors = 0 ∨ e.isExtended then none
  else some ⟨e.lbaStart, e.sectors, e.partType⟩

/-- The base of the chain that a primary entry starts. -/
def baseOf (e : RawEntry) : Option Nat :=
  if e.partType = 0 ∨ e.sectors = 0 ∨ ¬e.isExtended then none else some e.lbaStart

/-- The first entry of a boot record, relative to that record. -/
def logicalOf (ebr : Nat × Vector RawEntry 4) : Option Listed :=
  if (ebr.2.get 0).partType = 0 ∨ (ebr.2.get 0).sectors = 0 then none
  else some ⟨ebr.1 + (ebr.2.get 0).lbaStart, (ebr.2.get 0).sectors, (ebr.2.get 0).partType⟩

/-- The bases of the extended chains. -/
def bases (entries : Vector RawEntry 4) : List Nat := entries.toList.filterMap baseOf

/-- The primary entries, and the logical ones of the chains. -/
def listed (entries : Vector RawEntry 4) (chains : List (List (Nat × Vector RawEntry 4))) :
    List Listed :=
  entries.toList.filterMap primaryOf ++ chains.flatMap (·.filterMap logicalOf)

/-- The entry takes some room, inside the source. -/
def Listed.Inside (sector sourceLen : Nat) (item : Listed) : Prop :=
  item.lba * sector + item.sectors * sector ≤ sourceLen ∧ item.sectors * sector ≠ 0

/-- Two entries share a byte. -/
def Listed.Overlaps (sector : Nat) (a b : Listed) : Prop :=
  max (a.lba * sector) (b.lba * sector) <
    min (a.lba * sector + a.sectors * sector) (b.lba * sector + b.sectors * sector)

/-- The partition at position `index` of the table is the listed entry `item`. -/
structure Describes (sector index : Nat) (item : Listed) (p : PartitionEntry) : Prop where
  index_eq : p.index = index
  offset_eq : p.region.offset = item.lba * sector
  len_eq : p.region.len = item.sectors * sector
  mbrType_eq : p.mbrType = some item.partType
  description_eq : p.typeDescription = mbrTypeDescription item.partType
  typeGuid_eq : p.typeGuid = none
  name_eq : p.name = none

/-! ## Reading entries -/

section Entries

variable {buf : Bytes} {entries : Vector RawEntry 4}

theorem parseEntry_lt {i : Nat} {e : RawEntry} (h : parseEntry buf i = some e) :
    e.lbaStart < 2 ^ 32 := by
  simp only [parseEntry, Option.bind_eq_bind, Option.bind_eq_some_iff, Option.pure_def,
    Option.some.injEq] at h
  obtain ⟨partType, _, lba, hlba, sectors, _, rfl⟩ := h
  have := Le.u32At_lt buf (entryTableOffset + i * entrySize + 8)
  rw [hlba] at this
  exact this

theorem parseEntries_lt (h : parseEntries buf = some entries) :
    ∀ e ∈ entries.toList, e.lbaStart < 2 ^ 32 := by
  simp only [parseEntries, Option.bind_eq_bind, Option.bind_eq_some_iff] at h
  obtain ⟨signature, _, h⟩ := h
  split at h
  · cases h
  · simp only [Option.bind_eq_some_iff, Option.pure_def, Option.some.injEq] at h
    obtain ⟨e0, h0, e1, h1, e2, h2, e3, h3, rfl⟩ := h
    intro e he
    have he : e = e0 ∨ e = e1 ∨ e = e2 ∨ e = e3 := by simpa using he
    rcases he with rfl | rfl | rfl | rfl
    · exact parseEntry_lt h0
    · exact parseEntry_lt h1
    · exact parseEntry_lt h2
    · exact parseEntry_lt h3

end Entries

variable {reader : SourceReader} {sector : Nat} {entries : Vector RawEntry 4}

theorem boundedSectorOffset_eq (reader : SourceReader) (c sector : Nat) :
    boundedSectorOffset c sector 512 reader.len =
      if c * sector + 512 ≤ reader.len then some (c * sector) else none := by
  have hlt := reader.len_lt
  unfold boundedSectorOffset
  by_cases hle : c * sector + 512 ≤ reader.len
  · rw [U64.checkedMul_of_lt (by omega), Option.bind_eq_bind, Option.bind_some,
      U64.checkedAdd_of_lt (by omega), Option.bind_some]
  · rw [if_neg hle]
    cases hmul : U64.checkedMul c sector with
    | none => rfl
    | some offset =>
      obtain ⟨_, rfl⟩ := U64.checkedMul_eq_some.mp hmul
      rw [Option.bind_eq_bind, Option.bind_some]
      cases hadd : U64.checkedAdd (c * sector) 512 with
      | none => rfl
      | some stop =>
        obtain ⟨_, rfl⟩ := U64.checkedAdd_eq_some.mp hadd
        rw [Option.bind_some, if_neg hle]

/-- The link of a boot record stays below `2 ^ 33`. -/
theorem ebrAt_lt {c : Nat} (h : ebrAt reader sector c = some entries) :
    ∀ e ∈ entries.toList, e.lbaStart < 2 ^ 32 := by
  unfold ebrAt at h
  split at h
  · obtain ⟨buf, _, hparse⟩ := Option.bind_eq_some_iff.mp h
    exact parseEntries_lt hparse
  · cases h

/-! ## Pushing partitions -/

/-- Pushes the entries one after the other. -/
def pushAll (sector sourceLen : Nat) (items : List Listed) (st : MbrState) : MbrState :=
  items.foldl (fun st item =>
    pushPartition sector sourceLen item.lba item.sectors item.partType st) st

@[simp] theorem pushAll_nil {sourceLen : Nat} {st : MbrState} :
    pushAll sector sourceLen [] st = st := rfl

@[simp] theorem pushAll_cons {sourceLen : Nat} {item : Listed} {items : List Listed}
    {st : MbrState} : pushAll sector sourceLen (item :: items) st = pushAll sector sourceLen items
      (pushPartition sector sourceLen item.lba item.sectors item.partType st) := rfl

theorem pushAll_append {sourceLen : Nat} {items items' : List Listed} {st : MbrState} :
    pushAll sector sourceLen (items ++ items') st =
      pushAll sector sourceLen items' (pushAll sector sourceLen items st) :=
  List.foldl_append

section Push

variable {sourceLen : Nat} {item : Listed} {items : List Listed} {st : MbrState}

/-- An entry inside the source becomes a partition. -/
theorem pushPartition_inside (hsource : sourceLen < 2 ^ 64) (h : item.Inside sector sourceLen)
    (st : MbrState) :
    ∃ p, Describes sector st.index item p ∧ p.region.stop ≤ sourceLen ∧ p.region.len ≠ 0 ∧
      pushPartition sector sourceLen item.lba item.sectors item.partType st =
        { st with partitions := st.partitions ++ [p], index := st.index + 1 } := by
  obtain ⟨hstop, hlen⟩ := h
  have hfits : item.lba * sector + item.sectors * sector < 2 ^ 64 := by omega
  refine ⟨⟨st.index, ⟨item.lba * sector, item.sectors * sector, hfits⟩, some item.partType, none,
    none, mbrTypeDescription item.partType⟩, ⟨rfl, rfl, rfl, rfl, rfl, rfl, rfl⟩, hstop, hlen, ?_⟩
  rw [pushPartition, U64.checkedMul_of_lt (by omega), U64.checkedMul_of_lt (by omega)]
  simp only [newRegion, dif_pos hfits]
  exact if_pos ⟨hstop, hlen⟩

/-- Any other entry becomes a warning. -/
theorem pushPartition_outside (h : ¬item.Inside sector sourceLen) (st : MbrState) :
    ∃ warning, pushPartition sector sourceLen item.lba item.sectors item.partType st =
      st.warn warning := by
  unfold pushPartition
  split
  · exact ⟨_, rfl⟩
  · next offset hoffset =>
    obtain ⟨_, rfl⟩ := U64.checkedMul_eq_some.mp hoffset
    split
    · exact ⟨_, rfl⟩
    · next len hlen =>
      obtain ⟨_, rfl⟩ := U64.checkedMul_eq_some.mp hlen
      split
      · next r hr =>
        unfold newRegion at hr
        split at hr
        · cases hr
          exact ⟨_, if_neg h⟩
        · cases hr
      · exact ⟨_, rfl⟩

/-- Pushing takes no warning back, and adds one for each entry outside the source. -/
theorem pushAll_warnings (h : (pushAll sector sourceLen items st).warnings = [])
    (hsource : sourceLen < 2 ^ 64) :
    st.warnings = [] ∧ ∀ item ∈ items, item.Inside sector sourceLen := by
  induction items generalizing st with
  | nil => exact ⟨h, fun item hitem => (by cases hitem)⟩
  | cons item items ih =>
    rw [pushAll_cons] at h
    obtain ⟨hfirst, hrest⟩ := ih h
    by_cases hinside : item.Inside sector sourceLen
    · obtain ⟨p, _, _, _, hpush⟩ := pushPartition_inside hsource hinside st
      rw [hpush] at hfirst
      exact ⟨hfirst, List.forall_mem_cons.mpr ⟨hinside, hrest⟩⟩
    · obtain ⟨warning, hpush⟩ := pushPartition_outside hinside st
      rw [hpush] at hfirst
      exact absurd hfirst (List.append_ne_nil_of_right_ne_nil _ (List.cons_ne_nil _ _))

/-- Entries inside the source become the partitions of the table, in order. -/
theorem pushAll_quiet (hsource : sourceLen < 2 ^ 64)
    (hinside : ∀ item ∈ items, item.Inside sector sourceLen) (st : MbrState) :
    ∃ parts, pushAll sector sourceLen items st =
        ⟨st.partitions ++ parts, st.warnings, st.index + items.length⟩ ∧
      parts.length = items.length ∧
      (∀ p ∈ parts, p.region.stop ≤ sourceLen ∧ p.region.len ≠ 0) ∧
      ∀ i item p, items[i]? = some item → parts[i]? = some p →
        Describes sector (st.index + i) item p := by
  -- on the items; each takes the next index and no warning
  induction items generalizing st with
  | nil =>
    refine ⟨[], ?_, rfl, fun p hp => (by cases hp), fun i item p hitem => (by cases hitem)⟩
    rw [pushAll_nil, List.append_nil]
    rfl
  | cons item items ih =>
    obtain ⟨hfirst, hrest⟩ := List.forall_mem_cons.mp hinside
    obtain ⟨p, hp, hstop, hlen, hpush⟩ := pushPartition_inside hsource hfirst st
    obtain ⟨parts, hparts, hlength, hbounds, hdescribes⟩ := ih hrest
      (pushPartition sector sourceLen item.lba item.sectors item.partType st)
    rw [hpush] at hparts hdescribes
    refine ⟨p :: parts, ?_, by rw [List.length_cons, List.length_cons, hlength],
      List.forall_mem_cons.mpr ⟨⟨hstop, hlen⟩, hbounds⟩, fun i item' p' hitem hp' => ?_⟩
    · rw [pushAll_cons, hpush, hparts, List.length_cons, List.append_assoc, List.singleton_append,
        Nat.add_right_comm, Nat.add_assoc]
    · cases i with
      | zero =>
        cases hitem
        cases hp'
        exact hp
      | succ i =>
        rw [← Nat.add_assoc, Nat.add_right_comm]
        exact hdescribes i item' p' hitem hp'

end Push

/-- The loop over the primary entries, as the list of what it pushes. -/
theorem pushPrimaries_eq (sourceLen : Nat) (es : List RawEntry) (st : MbrState)
    (chains : List Nat) :
    pushPrimaries sector sourceLen es st chains =
      (pushAll sector sourceLen (es.filterMap primaryOf) st, chains ++ es.filterMap baseOf) := by
  induction es generalizing st chains with
  | nil => rw [pushPrimaries, List.filterMap_nil, List.filterMap_nil, List.append_nil, pushAll_nil]
  | cons e es ih =>
    unfold pushPrimaries
    by_cases hempty : e.partType = 0 ∨ e.sectors = 0
    · have hprimary : primaryOf e = none := if_pos (or_assoc.mp (.inl hempty))
      have hbase : baseOf e = none := if_pos (or_assoc.mp (.inl hempty))
      rw [if_pos hempty, ih, List.filterMap_cons_none hprimary, List.filterMap_cons_none hbase]
    · by_cases hextended : e.isExtended
      · have hprimary : primaryOf e = none := if_pos (.inr (.inr hextended))
        have hbase : baseOf e = some e.lbaStart :=
          if_neg fun h => (or_assoc.mpr h).elim hempty fun h => h hextended
        rw [if_neg hempty, if_pos hextended, ih, List.filterMap_cons_none hprimary,
          List.filterMap_cons_some hbase, List.append_assoc, List.singleton_append]
      · have hprimary : primaryOf e = some ⟨e.lbaStart, e.sectors, e.partType⟩ :=
          if_neg fun h => (or_assoc.mpr h).elim hempty hextended
        have hbase : baseOf e = none := if_pos (.inr (.inr hextended))
        rw [if_neg hempty, if_neg hextended, ih, List.filterMap_cons_some hprimary,
          List.filterMap_cons_none hbase, pushAll_cons]

/-! ## One chain -/

/-- What one boot record pushes. -/
theorem pushLogical_eq {c : Nat} (hc : c < 2 ^ 33) (hlt : entries[0].lbaStart < 2 ^ 32)
    (sourceLen : Nat) (st : MbrState) :
    pushLogical sector sourceLen c entries[0] st =
      pushAll sector sourceLen (logicalOf (c, entries)).toList st := by
  have hlogical : logicalOf (c, entries) =
      if entries[0].partType = 0 ∨ entries[0].sectors = 0 then none
      else some ⟨c + entries[0].lbaStart, entries[0].sectors, entries[0].partType⟩ := rfl
  unfold pushLogical
  rw [hlogical]
  by_cases hempty : entries[0].partType = 0 ∨ entries[0].sectors = 0
  · rw [if_neg (by rwa [← not_or, not_not]), if_pos hempty]
    rfl
  · rw [if_pos (not_or.mp hempty), if_neg hempty, U64.checkedAdd_of_lt (by omega)]
    rfl

theorem nextEbr_eq {extBase : Nat} (hbase : extBase < 2 ^ 32)
    (hlt : entries[1].lbaStart < 2 ^ 32) : nextEbr extBase entries[1] = linkOf extBase entries := by
  have hlink : linkOf extBase entries =
      if entries[1].isExtended ∧ entries[1].sectors ≠ 0 then some (extBase + entries[1].lbaStart)
      else none := rfl
  unfold nextEbr
  rw [hlink]
  split
  · exact U64.checkedAdd_of_lt (by omega)
  · rfl

section Chain

variable {extBase c : Nat} {rounds : Nat} {visited : List Nat} {st : MbrState}

/-- One round at a boot record. -/
theorem followChain_step (hbase : extBase < 2 ^ 32) (hc : c < 2 ^ 33) (hvisited : c ∉ visited)
    (hebr : ebrAt reader sector c = some entries) (st : MbrState) :
    followChain reader sector extBase (rounds + 1) visited c st =
      (linkOf extBase entries).elim
        (pushAll sector reader.len (logicalOf (c, entries)).toList st)
        fun next => followChain reader sector extBase rounds (c :: visited) next
          (pushAll sector reader.len (logicalOf (c, entries)).toList st) := by
  have hlt := ebrAt_lt hebr
  have h0 : entries[0].lbaStart < 2 ^ 32 := hlt _ (by simp)
  have h1 : entries[1].lbaStart < 2 ^ 32 := hlt _ (by simp)
  unfold ebrAt at hebr
  -- an EBR outside the source or without a signature is no link of the chain
  split at hebr
  · next hinside =>
    obtain ⟨buf, hread, hparse⟩ := Option.bind_eq_some_iff.mp hebr
    have hread : reader.readVecAt (c * sector) 512 = .ok buf := by
      cases hx : reader.readVecAt (c * sector) 512 with
      | error e => rw [hx] at hread; cases hread
      | ok buf' =>
        rw [hx] at hread
        cases hread
        rfl
    conv => lhs; unfold followChain
    rw [if_neg hvisited, boundedSectorOffset_eq, if_pos hinside]
    simp only [hread, hparse, pushLogical_eq hc h0, nextEbr_eq hbase h1]
    cases linkOf extBase entries with
    | none => rfl
    | some next => rfl
  · cases hebr

/-- One round at a sector that was visited before or holds no boot record. -/
theorem followChain_broken (h : c ∈ visited ∨ ebrAt reader sector c = none) (st : MbrState) :
    ∃ warning, followChain reader sector extBase (rounds + 1) visited c st = st.warn warning := by
  unfold followChain
  by_cases hvisited : c ∈ visited
  · exact ⟨_, if_pos hvisited⟩
  · have hebr := h.resolve_left hvisited
    rw [if_neg hvisited, boundedSectorOffset_eq]
    unfold ebrAt at hebr
    split at hebr
    · next hinside =>
      rw [if_pos hinside]
      cases hread : reader.readVecAt (c * sector) 512 with
      | error e => exact ⟨.ebrUnreadable, by simp only [hread]⟩
      | ok buf =>
        rw [hread] at hebr
        have hebr : parseEntries buf = none := hebr
        exact ⟨.ebrNoSignature, by simp only [hread, hebr]⟩
    · next hinside =>
      rw [if_neg hinside]
      exact ⟨_, rfl⟩

/-- The inner loop follows the links, and goes on where the list stops. -/
theorem followChain_linked {xs : List (Nat × Vector RawEntry 4)} {stop : Option Nat}
    (hbase : extBase < 2 ^ 32) (hc : c < 2 ^ 33) (h : Chain reader sector extBase c xs stop)
    (hnodup : ((xs.map Prod.fst).reverse ++ visited).Nodup) (hrounds : xs.length ≤ rounds)
    (st : MbrState) :
    followChain reader sector extBase rounds visited c st =
      stop.elim (pushAll sector reader.len (xs.filterMap logicalOf) st) fun next =>
        followChain reader sector extBase (rounds - xs.length)
          ((xs.map Prod.fst).reverse ++ visited) next
          (pushAll sector reader.len (xs.filterMap logicalOf) st) := by
  -- on the chain; the visited sectors are those before the current one
  induction h generalizing rounds visited st with
  | nil c => rfl
  | @ends c entries hebr hlink =>
    obtain ⟨rounds, rfl⟩ := Nat.exists_eq_add_of_le' (Nat.le_trans (Nat.succ_pos _) hrounds)
    have hvisited : c ∉ visited := by
      simp only [List.map_cons, List.map_nil, List.reverse_singleton, List.singleton_append,
        List.nodup_cons] at hnodup
      exact hnodup.1
    rw [followChain_step hbase hc hvisited hebr, hlink]
    cases hlogical : logicalOf (c, entries) with
    | none => rw [List.filterMap_cons_none hlogical]; rfl
    | some item => rw [List.filterMap_cons_some hlogical]; rfl
  | @cons c next entries xs stop hebr hlink hrest ih =>
    obtain ⟨rounds, rfl⟩ := Nat.exists_eq_add_of_le' (Nat.le_trans (Nat.succ_pos _) hrounds)
    have hkeys : (((c, entries) :: xs).map Prod.fst).reverse ++ visited =
        (xs.map Prod.fst).reverse ++ c :: visited := by simp
    have hlength : rounds + 1 - ((c, entries) :: xs).length = rounds - xs.length := by
      rw [List.length_cons]
      omega
    rw [hkeys] at hnodup
    have hvisited : c ∉ visited :=
      (List.nodup_cons.mp (List.nodup_append.mp hnodup).2.1).1
    have hnext : next < 2 ^ 33 := by
      have hlt : entries[1].lbaStart < 2 ^ 32 := ebrAt_lt hebr _ (by simp)
      change (entries.get 1).lbaStart < 2 ^ 32 at hlt
      unfold linkOf at hlink
      split at hlink
      · cases hlink
        omega
      · cases hlink
    have hpush : pushAll sector reader.len (((c, entries) :: xs).filterMap logicalOf) st =
        pushAll sector reader.len (xs.filterMap logicalOf)
          (pushAll sector reader.len (logicalOf (c, entries)).toList st) := by
      cases hlogical : logicalOf (c, entries) with
      | none => rw [List.filterMap_cons_none hlogical]; rfl
      | some item => rw [List.filterMap_cons_some hlogical]; rfl
    rw [followChain_step hbase hc hvisited hebr, hlink, hkeys, hlength, hpush]
    exact ih hnext hnodup (by simp only [List.length_cons] at hrounds; omega) _

end Chain

/-! ## How chains end -/

/-- The chain at `extBase` goes on behind the last boot record that the parser follows. -/
def Capped (reader : SourceReader) (sector extBase : Nat)
    (ebrs : List (Nat × Vector RawEntry 4)) : Prop :=
  ∃ next, Chain reader sector extBase extBase ebrs (some next) ∧ ebrs.length = maxEbrChain ∧
    (ebrs.map Prod.fst).Nodup

/-- The parser follows the chain at `extBase` through the boot records `ebrs` without a
    warning: to its end, or as far as it goes. -/
def Reached (reader : SourceReader) (sector extBase : Nat)
    (ebrs : List (Nat × Vector RawEntry 4)) : Prop :=
  (Chain reader sector extBase extBase ebrs none ∧ ebrs.length ≤ maxEbrChain) ∨
    Capped reader sector extBase ebrs

section Outcome

variable {extBase : Nat} {ebrs : List (Nat × Vector RawEntry 4)} {st : MbrState}

theorem followChain_reached (hbase : extBase < 2 ^ 32) (h : Reached reader sector extBase ebrs)
    (st : MbrState) :
    followChain reader sector extBase maxEbrChain [] extBase st =
      pushAll sector reader.len (ebrs.filterMap logicalOf) st := by
  rcases h with ⟨hchain, hlength⟩ | ⟨next, hchain, hlength, hnodup⟩
  · rw [followChain_linked hbase (by omega) hchain
      (by rw [List.append_nil, List.nodup_reverse]; exact hchain.nodup) hlength]
    rfl
  · rw [followChain_linked hbase (by omega) hchain
      (by rw [List.append_nil, List.nodup_reverse]; exact hnodup) (Nat.le_of_eq hlength),
      Option.elim_some, hlength, Nat.sub_self]
    rfl

/-- A chain is reached, or it is cut with a warning. -/
theorem followChain_outcome (reader : SourceReader) (sector : Nat) (hbase : extBase < 2 ^ 32) :
    ∃ ebrs, Reached reader sector extBase ebrs ∨
      ∀ st, ∃ warning, followChain reader sector extBase maxEbrChain [] extBase st =
        (pushAll sector reader.len (ebrs.filterMap logicalOf) st).warn warning := by
  obtain ⟨ebrs, stop, hchain, hlength, hnodup, hstop⟩ := exists_linked (ebrAt reader sector)
    (linkOf extBase) maxEbrChain List.nodup_nil extBase
  refine ⟨ebrs, ?_⟩
  have hkeys := hnodup
  rw [List.append_nil, List.nodup_reverse] at hkeys
  cases stop with
  | none => exact .inl (.inl ⟨hchain, hlength⟩)
  | some next =>
    by_cases hcap : ebrs.length = maxEbrChain
    · exact .inl (.inr ⟨next, hchain, hcap, hkeys⟩)
    · refine .inr fun st => ?_
      obtain ⟨rounds, hrounds⟩ : ∃ rounds, maxEbrChain - ebrs.length = rounds + 1 :=
        Nat.exists_eq_add_of_le' (by omega)
      rw [followChain_linked hbase (by omega) hchain hnodup hlength, Option.elim_some, hrounds]
      exact followChain_broken ((hstop next rfl).resolve_left hcap) _

/-- A chain that goes on behind the cap does not end before it. -/
theorem Capped.not_complete (h : Capped reader sector extBase ebrs) :
    ¬∃ xs, Chain reader sector extBase extBase xs none ∧ xs.length ≤ maxEbrChain := by
  obtain ⟨next, hchain, hlength, _⟩ := h
  rintro ⟨xs, hxs, hle⟩
  have := hxs.length_lt hchain
  omega

end Outcome

section Chains

variable {extBases : List Nat} {st : MbrState}

theorem followChains_reached {chains : List (List (Nat × Vector RawEntry 4))}
    (hbases : ∀ b ∈ extBases, b < 2 ^ 32)
    (h : List.Forall₂ (Reached reader sector) extBases chains) (st : MbrState) :
    followChains reader sector extBases st =
      pushAll sector reader.len (chains.flatMap (·.filterMap logicalOf)) st := by
  induction h generalizing st with
  | nil => rfl
  | @cons b ebrs extBases chains hreached _ ih =>
    obtain ⟨hb, hrest⟩ := List.forall_mem_cons.mp hbases
    rw [List.flatMap_cons, pushAll_append, ← followChain_reached hb hreached st]
    exact ih hrest _

/-- Without a warning every chain was reached. -/
theorem followChains_quiet (hbases : ∀ b ∈ extBases, b < 2 ^ 32)
    (h : (followChains reader sector extBases st).warnings = []) :
    st.warnings = [] ∧ ∃ chains, List.Forall₂ (Reached reader sector) extBases chains := by
  induction extBases generalizing st with
  | nil => exact ⟨h, [], .nil⟩
  | cons b extBases ih =>
    obtain ⟨hb, hrest⟩ := List.forall_mem_cons.mp hbases
    obtain ⟨hfirst, chains, hchains⟩ := ih hrest h
    have hfirst : (followChain reader sector b maxEbrChain [] b st).warnings = [] := hfirst
    obtain ⟨ebrs, hreached | hcut⟩ := followChain_outcome reader sector hb
    · rw [followChain_reached hb hreached] at hfirst
      exact ⟨(pushAll_warnings hfirst reader.len_lt).1, ebrs :: chains, .cons hreached hchains⟩
    · obtain ⟨warning, hwarn⟩ := hcut st
      rw [hwarn] at hfirst
      exact absurd hfirst (List.append_ne_nil_of_right_ne_nil _ (List.cons_ne_nil _ _))

end Chains

/-! ## Overlaps -/

theorem checkOverlaps_eq_nil {parts : List PartitionEntry} :
    checkOverlaps parts = [] ↔ parts.Pairwise fun a b => ¬Intersects a.region b.region := by
  induction parts with
  | nil => simp [checkOverlaps]
  | cons a parts ih =>
    rw [checkOverlaps, List.append_eq_nil_iff, List.map_eq_nil_iff, List.filter_eq_nil_iff, ih,
      List.pairwise_cons]
    simp

/-- Partitions intersect where the entries they describe overlap. -/
theorem pairwise_overlaps_iff {items : List Listed} {parts : List PartitionEntry}
    (hlength : parts.length = items.length)
    (hdescribes : ∀ i item p, items[i]? = some item → parts[i]? = some p →
      Describes sector i item p) :
    (parts.Pairwise fun a b => ¬Intersects a.region b.region) ↔
      items.Pairwise fun a b => ¬a.Overlaps sector b := by
  rw [List.pairwise_iff_getElem, List.pairwise_iff_getElem]
  have hiff : ∀ i j (hi : i < items.length) (hj : j < items.length),
      Intersects parts[i].region parts[j].region ↔ items[i].Overlaps sector items[j] := by
    intro i j hi hj
    have hdi := hdescribes i _ _ (List.getElem?_eq_getElem hi)
      (List.getElem?_eq_getElem (by omega))
    have hdj := hdescribes j _ _ (List.getElem?_eq_getElem hj)
      (List.getElem?_eq_getElem (by omega))
    simp only [Intersects, Listed.Overlaps, Region.stop, hdi.offset_eq, hdi.len_eq,
      hdj.offset_eq, hdj.len_eq]
  constructor
  · intro h i j hi hj hij
    rw [← hiff i j hi hj]
    exact h i j (by omega) (by omega) hij
  · intro h i j hi hj hij
    rw [hiff i j (by omega) (by omega)]
    exact h i j (by omega) (by omega) hij

/-! ## Whole tables -/

/-- The partitions are the listed entries, each once and inside the source. -/
structure Lists (sector sourceLen : Nat) (items : List Listed) (parts : List PartitionEntry) :
    Prop where
  length_eq : parts.length = items.length
  describes : ∀ i item p, items[i]? = some item → parts[i]? = some p → Describes sector i item p
  inside : ∀ p ∈ parts, p.region.stop ≤ sourceLen ∧ p.region.len ≠ 0
  apart : parts.Pairwise fun a b => ¬Intersects a.region b.region

/-- A quiet table lists everything, and a table with a chain that is cut is not quiet. -/
structure Promise (reader : SourceReader) (sector : Nat) (entries : Vector RawEntry 4)
    (table : PartitionTable) : Prop where
  complete : table.warnings = [] → ∃ chains,
    List.Forall₂ (fun base ebrs => Chain reader sector base base ebrs none) (bases entries)
      chains ∧
    Lists sector reader.len (listed entries chains) table.partitions
  cut : (∃ base ∈ bases entries,
      ¬∃ ebrs, Chain reader sector base base ebrs none ∧ ebrs.length ≤ maxEbrChain) →
    table.warnings ≠ []

/-- A chain of the image goes on behind its 128th boot record, and nothing else is wrong. -/
structure CutUnnoticed (reader : SourceReader) (sector : Nat) (entries : Vector RawEntry 4)
    (chains : List (List (Nat × Vector RawEntry 4))) : Prop where
  entries_eq : mbrEntries reader sector = some entries
  no_gpt : ∀ e ∈ entries.toList, e.partType ≠ 0xEE
  reached : List.Forall₂ (Reached reader sector) (bases entries) chains
  capped : ∃ p ∈ (bases entries).zip chains, Capped reader sector p.1 p.2
  nonempty : listed entries chains ≠ []
  inside : ∀ item ∈ listed entries chains, item.Inside sector reader.len
  apart : (listed entries chains).Pairwise fun a b => ¬a.Overlaps sector b

/-- The state behind the loops of the parser. -/
def parsedState (reader : SourceReader) (sector : Nat) (entries : Vector RawEntry 4) : MbrState :=
  followChains reader sector (bases entries)
    (pushAll sector reader.len (entries.toList.filterMap primaryOf) ⟨[], [], 0⟩)

theorem parseMbr_eq_ok {table : PartitionTable} :
    parseMbr reader sector = .ok table ↔ ∃ entries, mbrEntries reader sector = some entries ∧
      (∀ e ∈ entries.toList, e.partType ≠ 0xEE) ∧
      (parsedState reader sector entries).partitions ≠ [] ∧
      table = ⟨.mbr, (parsedState reader sector entries).partitions,
        (parsedState reader sector entries).warnings ++
          checkOverlaps (parsedState reader sector entries).partitions⟩ := by
  unfold parseMbr mbrEntries
  cases hread : reader.readVecAt 0 (max sector 512) with
  | error e =>
    constructor
    · intro h
      cases h
    · rintro ⟨entries, hentries, _⟩
      cases hentries
  | ok buf =>
    cases hparse : parseEntries buf with
    | none =>
      constructor
      · intro h
        simp only [Except.mapError, bind_ok, hparse, okOr] at h
        cases h
      · rintro ⟨entries, hentries, _⟩
        cases hparse.symm.trans hentries
    | some entries =>
      have hstate : followChains reader sector (bases entries)
          (pushPrimaries sector reader.len entries.toList ⟨[], [], 0⟩ []).1 =
          parsedState reader sector entries := by
        rw [pushPrimaries_eq]
        rfl
      have hchains : (pushPrimaries sector reader.len entries.toList ⟨[], [], 0⟩ []).2 =
          bases entries := by
        rw [pushPrimaries_eq]
        exact List.nil_append _
      simp only [Except.mapError, bind_ok, hparse, okOr, throw_bind, ite_throw_eq_ok, hchains,
        hstate, List.any_eq_true, decide_eq_true_eq, not_exists, not_and, Except.toOption,
        Option.bind_eq_bind, Option.bind_some, Option.some.injEq, exists_eq_left', pure_eq_ok,
        List.isEmpty_iff, ne_eq, @eq_comm PartitionTable _ table]

/-- The bases of the chains are 32-bit addresses. -/
theorem bases_lt (hentries : mbrEntries reader sector = some entries) :
    ∀ base ∈ bases entries, base < 2 ^ 32 := by
  intro base hbase
  obtain ⟨buf, _, hparse⟩ := Option.bind_eq_some_iff.mp hentries
  obtain ⟨e, he, heq⟩ := List.mem_filterMap.mp hbase
  unfold baseOf at heq
  split at heq
  · cases heq
  · cases heq
    exact parseEntries_lt hparse e he

section Parsed

variable {chains : List (List (Nat × Vector RawEntry 4))}

theorem parsedState_eq (hentries : mbrEntries reader sector = some entries)
    (hreached : List.Forall₂ (Reached reader sector) (bases entries) chains) :
    parsedState reader sector entries =
      pushAll sector reader.len (listed entries chains) ⟨[], [], 0⟩ := by
  rw [parsedState, followChains_reached (bases_lt hentries) hreached, ← pushAll_append]
  rfl

/-- Without a warning every chain was reached, and every entry lies inside the source. -/
theorem parsedState_quiet (hentries : mbrEntries reader sector = some entries)
    (h : (parsedState reader sector entries).warnings = []) :
    ∃ chains, List.Forall₂ (Reached reader sector) (bases entries) chains ∧
      ∀ item ∈ listed entries chains, item.Inside sector reader.len := by
  obtain ⟨_, chains, hreached⟩ := followChains_quiet (bases_lt hentries) h
  rw [parsedState_eq hentries hreached] at h
  exact ⟨chains, hreached, (pushAll_warnings h reader.len_lt).2⟩

/-- The table of an image whose chains are reached and whose entries lie inside the source. -/
theorem parsedState_reached (hentries : mbrEntries reader sector = some entries)
    (hreached : List.Forall₂ (Reached reader sector) (bases entries) chains)
    (hinside : ∀ item ∈ listed entries chains, item.Inside sector reader.len) :
    (parsedState reader sector entries).warnings = [] ∧
    (parsedState reader sector entries).partitions.length = (listed entries chains).length ∧
    (∀ p ∈ (parsedState reader sector entries).partitions,
      p.region.stop ≤ reader.len ∧ p.region.len ≠ 0) ∧
    ∀ i item p, (listed entries chains)[i]? = some item →
      (parsedState reader sector entries).partitions[i]? = some p →
      Describes sector i item p := by
  obtain ⟨parts, hparts, hlength, hbounds, hdescribes⟩ :=
    pushAll_quiet reader.len_lt hinside ⟨[], [], 0⟩
  simp only [Nat.zero_add] at hdescribes
  rw [parsedState_eq hentries hreached, hparts, List.nil_append]
  exact ⟨rfl, hlength, hbounds, hdescribes⟩

/-- A cut that leaves no warning breaks the promise. -/
theorem CutUnnoticed.quiet (h : CutUnnoticed reader sector entries chains) :
    ∃ table, parseMbr reader sector = .ok table ∧ table.warnings = [] ∧
      ¬Promise reader sector entries table := by
  obtain ⟨hwarnings, hlength, _, hdescribes⟩ :=
    parsedState_reached h.entries_eq h.reached h.inside
  have hpartitions : (parsedState reader sector entries).partitions ≠ [] := by
    intro hnil
    rw [hnil] at hlength
    exact h.nonempty (List.length_eq_zero_iff.mp hlength.symm)
  have hoverlaps := checkOverlaps_eq_nil.mpr
    ((pairwise_overlaps_iff hlength hdescribes).mpr h.apart)
  refine ⟨_, parseMbr_eq_ok.mpr ⟨entries, h.entries_eq, h.no_gpt, hpartitions, rfl⟩, ?_, ?_⟩
  · rw [hwarnings, hoverlaps, List.append_nil]
  · intro hpromise
    obtain ⟨⟨base, ebrs⟩, hmem, hcapped⟩ := h.capped
    refine hpromise.cut ⟨base, (List.of_mem_zip hmem).1, hcapped.not_complete⟩ ?_
    rw [hwarnings, hoverlaps, List.append_nil]

/-- A quiet table comes from chains that were reached, and each of them ended unless the cut
    went unnoticed. -/
theorem quiet_complete {table : PartitionTable} (h : parseMbr reader sector = .ok table)
    (hentries : mbrEntries reader sector = some entries) (hquiet : table.warnings = [])
    (hnoticed : ∀ chains, ¬CutUnnoticed reader sector entries chains) :
    ∃ chains, List.Forall₂ (fun base ebrs => Chain reader sector base base ebrs none ∧
        ebrs.length ≤ maxEbrChain) (bases entries) chains ∧
      Lists sector reader.len (listed entries chains) table.partitions := by
  obtain ⟨entries', hentries', hgpt, hpartitions, rfl⟩ := parseMbr_eq_ok.mp h
  cases hentries.symm.trans hentries'
  obtain ⟨hwarnings, hoverlaps⟩ := List.append_eq_nil_iff.mp hquiet
  obtain ⟨chains, hreached, hinside⟩ := parsedState_quiet hentries hwarnings
  obtain ⟨_, hlength, hbounds, hdescribes⟩ := parsedState_reached hentries hreached hinside
  have hapart := checkOverlaps_eq_nil.mp hoverlaps
  refine ⟨chains, ?_, hlength, hdescribes, hbounds, hapart⟩
  have hnonempty : listed entries chains ≠ [] := by
    intro hnil
    rw [hnil] at hlength
    exact hpartitions (List.length_eq_zero_iff.mp hlength)
  have hitems := (pairwise_overlaps_iff hlength hdescribes).mp hapart
  have hnone : ∀ p ∈ (bases entries).zip chains, ¬Capped reader sector p.1 p.2 :=
    fun p hp hcapped => hnoticed chains
      ⟨hentries, hgpt, hreached, ⟨p, hp, hcapped⟩, hnonempty, hinside, hitems⟩
  rw [List.forall₂_iff_zip] at hreached ⊢
  refine ⟨hreached.1, fun {base ebrs} hmem => ?_⟩
  exact (hreached.2 hmem).resolve_right (hnone _ hmem)

end Parsed

/-- The promise is kept exactly when no cut goes unnoticed. -/
theorem parseMbr_complete_iff (reader : SourceReader) (sector : Nat) :
    (∀ table entries, parseMbr reader sector = .ok table →
      mbrEntries reader sector = some entries → Promise reader sector entries table) ↔
    ∀ entries chains, ¬CutUnnoticed reader sector entries chains := by
  constructor
  · intro h entries chains hcut
    obtain ⟨table, hparse, _, hbroken⟩ := hcut.quiet
    exact hbroken (h table entries hparse hcut.entries_eq)
  · intro hnoticed table entries hparse hentries
    constructor
    · intro hquiet
      obtain ⟨chains, hchains, hlists⟩ := quiet_complete hparse hentries hquiet (hnoticed entries)
      exact ⟨chains, hchains.imp fun _ _ hchain => hchain.1, hlists⟩
    · rintro ⟨base, hbase, hcut⟩ hquiet
      obtain ⟨chains, hchains, _⟩ := quiet_complete hparse hentries hquiet (hnoticed entries)
      obtain ⟨i, hi, rfl⟩ := List.getElem_of_mem hbase
      exact hcut ⟨_, hchains.get hi (hchains.length_eq ▸ hi)⟩

/-! ## A chain that is too long -/

/-- Entry `i` of a sector given by its bytes. -/
def rawEntry (byte : Nat → UInt8) (i : Nat) : RawEntry where
  partType := (byte (entryTableOffset + i * entrySize + 4)).toNat
  lbaStart := Bytes.leValue (Bytes.window byte (entryTableOffset + i * entrySize + 8) 4)
  sectors := Bytes.leValue (Bytes.window byte (entryTableOffset + i * entrySize + 12) 4)

theorem getRange?_sector (byte : Nat → UInt8) {a n len : Nat} (h : a + n ≤ len) :
    (Bytes.window byte 0 len).getRange? a (a + n) = some (Bytes.window byte a n) := by
  rw [Bytes.getRange?_eq_some]
  refine ⟨Nat.le_add_right a n, by rw [Bytes.length_window]; exact h, ?_⟩
  rw [Bytes.slice_window _ _ h, Nat.zero_add, Nat.add_sub_cancel_left]

theorem parseEntry_sector (byte : Nat → UInt8) {i : Nat} (hi : i < 4) :
    parseEntry (Bytes.window byte 0 512) i = some (rawEntry byte i) := by
  have hbound : entryTableOffset + i * entrySize + 16 ≤ 512 := by
    unfold entryTableOffset entrySize
    omega
  unfold parseEntry Le.u8At Le.u32At
  dsimp only
  rw [getRange?_sector byte (by omega), getRange?_sector byte (by omega), Bytes.getElem?_window,
    if_pos (by omega), Nat.zero_add]
  rfl

/-- A whole sector with the signature. -/
theorem parseEntries_sector (byte : Nat → UInt8)
    (h : Bytes.leValue (Bytes.window byte mbrSignatureOffset 2) = 0xAA55) :
    parseEntries (Bytes.window byte 0 512) =
      some #v[rawEntry byte 0, rawEntry byte 1, rawEntry byte 2, rawEntry byte 3] := by
  unfold parseEntries Le.u16At
  rw [getRange?_sector byte (by unfold mbrSignatureOffset; omega), Option.map_some, h,
    parseEntry_sector byte (by decide), parseEntry_sector byte (by decide),
    parseEntry_sector byte (by decide), parseEntry_sector byte (by decide)]
  rfl

/-- A boot record with a logical partition 1,000 sectors further on, and a link. -/
def ebrTemplate : Nat → UInt8 :=
  patched [(450, [7]), (454, [0xE8, 3]), (458, [1]), (466, [5]), (474, [1]), (510, [0x55, 0xAA])]

/-- The bytes of a sector of the image: the first one starts a chain at sector 1, and every
    other one is a boot record that links to the sector behind it. -/
def longChainSector (s o : Nat) : UInt8 :=
  if s = 0 then patched [(450, [5]), (454, [1]), (458, [1]), (510, [0x55, 0xAA])] o
  else if o = 470 then UInt8.ofNat s
  else ebrTemplate o

def longChainByte (i : Nat) : UInt8 := longChainSector (i / 512) (i % 512)

/-- 1,200 sectors. -/
def longChain : SourceReader := (memImageReader longChainByte 614400 (by decide)).toSourceReader

def longChainEbr (s : Nat) : Vector RawEntry 4 := #v[⟨7, 1000, 1⟩, ⟨5, s, 1⟩, ⟨0, 0, 0⟩, ⟨0, 0, 0⟩]

theorem window_longChain (s : Nat) :
    Bytes.window longChainByte (s * 512) 512 = Bytes.window (longChainSector s) 0 512 := by
  apply Bytes.window_congr
  intro i hi
  unfold longChainByte
  rw [show (s * 512 + i) / 512 = s by omega, show (s * 512 + i) % 512 = i by omega, Nat.zero_add]

theorem readVecAt_longChain {offset n : Nat} (h : offset + n ≤ 614400) :
    longChain.readVecAt offset n = .ok (Bytes.window longChainByte offset n) :=
  if_pos h

theorem mbrEntries_longChain :
    mbrEntries longChain 512 = some #v[⟨5, 1, 1⟩, ⟨0, 0, 0⟩, ⟨0, 0, 0⟩, ⟨0, 0, 0⟩] := by
  have hfirst := window_longChain 0
  rw [Nat.zero_mul] at hfirst
  have hparse : parseEntries (Bytes.window (longChainSector 0) 0 512) =
      some #v[⟨5, 1, 1⟩, ⟨0, 0, 0⟩, ⟨0, 0, 0⟩, ⟨0, 0, 0⟩] := by
    rw [parseEntries_sector _ rfl]
    rfl
  unfold mbrEntries
  rw [Nat.max_self, readVecAt_longChain (by omega), hfirst]
  simp only [Except.toOption, Option.bind_eq_bind, Option.bind_some, hparse]

/-- Apart from its link a boot record is the template. -/
theorem window_longChain_template {s o n : Nat} (hs : 0 < s) (h : o + n ≤ 470 ∨ 470 < o) :
    Bytes.window (longChainSector s) o n = Bytes.window ebrTemplate o n := by
  apply Bytes.window_congr
  intro i hi
  unfold longChainSector
  rw [if_neg (by omega), if_neg (by omega)]

theorem rawEntry_longChain {s i : Nat} (hs : 0 < s) (hi : i ≠ 1) :
    rawEntry (longChainSector s) i = rawEntry ebrTemplate i := by
  have hlow : entryTableOffset + i * entrySize + 16 ≤ 470 ∨
      470 < entryTableOffset + i * entrySize + 4 := by
    unfold entryTableOffset entrySize
    omega
  unfold rawEntry
  rw [window_longChain_template hs (by omega), window_longChain_template hs (by omega)]
  unfold longChainSector
  rw [if_neg (by omega), if_neg (by omega)]

theorem rawEntry_longChain_link {s : Nat} (hs : 0 < s) (hs' : s < 256) :
    rawEntry (longChainSector s) 1 = ⟨5, s, 1⟩ := by
  have hbyte : (UInt8.ofNat s).toNat = s := by
    rw [UInt8.toNat_ofNat']
    omega
  have hlink : Bytes.window (longChainSector s) 470 4 = UInt8.ofNat s :: [0, 0, 0] := by
    have htail := @window_longChain_template s 471 3 hs (.inr (by decide))
    rw [show 4 = 1 + 3 from rfl, ← Bytes.window_append]
    show [longChainSector s 470] ++ Bytes.window (longChainSector s) 471 3 = _
    rw [htail, longChainSector, if_neg (by omega), if_pos rfl]
    rfl
  have htype : longChainSector s 466 = 5 := by
    rw [longChainSector, if_neg (by omega)]
    rfl
  have hlba : Bytes.leValue (Bytes.window (longChainSector s) 470 4) = s := by
    rw [hlink, Bytes.leValue, hbyte]
    rfl
  have hsectors : Bytes.leValue (Bytes.window (longChainSector s) 474 4) = 1 := by
    rw [window_longChain_template hs (.inr (by decide))]
    rfl
  show (⟨(longChainSector s 466).toNat, Bytes.leValue (Bytes.window (longChainSector s) 470 4),
    Bytes.leValue (Bytes.window (longChainSector s) 474 4)⟩ : RawEntry) = _
  rw [htype, hlba, hsectors]
  rfl

theorem ebrAt_longChain {s : Nat} (hs : 0 < s) (hs' : s < 256) :
    ebrAt longChain 512 s = some (longChainEbr s) := by
  have hinside : s * 512 + 512 ≤ 614400 := by omega
  have hsignature : Bytes.leValue (Bytes.window (longChainSector s) mbrSignatureOffset 2) =
      0xAA55 := by
    rw [window_longChain_template hs (.inr (by decide))]
    rfl
  unfold ebrAt
  rw [if_pos (show _ ≤ longChain.len from hinside), readVecAt_longChain hinside, window_longChain]
  simp only [Except.toOption, Option.bind_eq_bind, Option.bind_some]
  rw [parseEntries_sector _ hsignature, rawEntry_longChain_link hs hs',
    rawEntry_longChain hs (by decide), rawEntry_longChain hs (by decide),
    rawEntry_longChain hs (by decide)]
  rfl

/-- The boot records of the chain from sector `s` on. -/
theorem chain_longChain (n : Nat) {s : Nat} (hs : 0 < s) (hn : s + n ≤ 256) :
    Chain longChain 512 1 s ((List.range' s n).map fun s => (s, longChainEbr s))
    (some (s + n)) := by
  induction n generalizing s with
  | zero => exact .nil s
  | succ n ih =>
    have hlink : linkOf 1 (longChainEbr s) = some (s + 1) := by
      rw [Nat.add_comm]
      rfl
    rw [List.range'_succ, List.map_cons, ← Nat.add_assoc, Nat.add_right_comm]
    exact .cons (ebrAt_longChain hs (by omega)) hlink (ih (Nat.succ_pos s) (by omega))

theorem longChain_cutUnnoticed :
    CutUnnoticed longChain 512 #v[⟨5, 1, 1⟩, ⟨0, 0, 0⟩, ⟨0, 0, 0⟩, ⟨0, 0, 0⟩]
      [(List.range' 1 128).map fun s => (s, longChainEbr s)] := by
  have hcapped : Capped longChain 512 1 ((List.range' 1 128).map fun s => (s, longChainEbr s)) := by
    refine ⟨129, chain_longChain 128 (by decide) (by decide), ?_, ?_⟩
    · rw [List.length_map, List.length_range']
      rfl
    · rw [List.map_map]
      have : (Prod.fst ∘ fun s => (s, longChainEbr s)) = (id : Nat → Nat) := rfl
      rw [this, List.map_id]
      exact List.nodup_range'
  have hlisted : listed #v[⟨5, 1, 1⟩, ⟨0, 0, 0⟩, ⟨0, 0, 0⟩, ⟨0, 0, 0⟩]
      [(List.range' 1 128).map fun s => (s, longChainEbr s)] =
      (List.range' 1 128).map fun s => ⟨s + 1000, 1, 7⟩ := by
    show _ ++ ([(List.range' 1 128).map fun s => (s, longChainEbr s)]).flatMap _ = _
    rw [List.flatMap_singleton, List.filterMap_map]
    exact congrFun (List.filterMap_eq_map (f := fun s => (⟨s + 1000, 1, 7⟩ : Listed))) _
  constructor
  · exact mbrEntries_longChain
  · decide
  · exact .cons (.inr hcapped) .nil
  · exact ⟨_, List.mem_singleton_self _, hcapped⟩
  · rw [hlisted]
    simp
  · rw [hlisted]
    intro item hitem
    obtain ⟨s, hs, rfl⟩ := List.mem_map.mp hitem
    have hs := List.mem_range'_1.mp hs
    constructor
    · show (s + 1000) * 512 + 1 * 512 ≤ 614400
      omega
    · show 1 * 512 ≠ 0
      decide
  · rw [hlisted, List.pairwise_map]
    refine (List.pairwise_lt_range' (s := 1) (n := 128)).imp fun hlt => ?_
    simp only [Listed.Overlaps]
    omega

/-- A chain of more than 128 boot records is cut, and the table has no warning. -/
theorem parseMbr_drops_long_chain :
    ∃ table entries, parseMbr longChain 512 = .ok table ∧
      mbrEntries longChain 512 = some entries ∧ table.warnings = [] ∧
      ¬Promise longChain 512 entries table := by
  obtain ⟨table, hparse, hquiet, hbroken⟩ := longChain_cutUnnoticed.quiet
  exact ⟨table, _, hparse, mbrEntries_longChain, hquiet, hbroken⟩

end Undelete.Partition
