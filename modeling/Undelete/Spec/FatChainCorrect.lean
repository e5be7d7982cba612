import Mathlib.Data.List.Chain
import Undelete.Native.Fat.Table

/-!
# Cluster chains and packed tables

`FatTable.chain` follows the entries of an untrusted table, so its links may lead into a loop,
to a free or bad entry or out of the volume. A walk is what such a chain may be: clusters in
range, each linked to the next one, none of them twice. The chain is a walk that every other
walk of the permitted length is a prefix of.

## Key results

- `walk_cons`: what the first cluster of a walk has to satisfy.
- `prefix_chainFrom`: no walk leaves the chain.
- `chain_longest_packed`: the chain of a packed table is its longest walk.
-/

namespace Undelete.Fat

/-! ## Walks -/

/-- Clusters obtained by following entries from `start`, all in range and none twice. -/
structure Walk (t : FatTable) (start : Nat) (clusters : List Nat) : Prop where
  head : ∀ c ∈ clusters.head?, c = start
  linked : clusters.IsChain fun c n => t.entry c = some (.next n)
  inRange : ∀ c ∈ clusters, 2 ≤ c ∧ c < t.clusterCount + 2
  nodup : clusters.Nodup

variable {t : FatTable} {start limit left current c : Nat} {clusters visited : List Nat}

theorem walk_nil : Walk t start [] where
  head c hc := by cases hc
  linked := .nil
  inRange c hc := by cases hc
  nodup := .nil

/-- The links behind the first cluster are a walk from the cluster it links to. -/
theorem walk_cons : Walk t start (c :: clusters) ↔
    c = start ∧ (2 ≤ c ∧ c < t.clusterCount + 2) ∧ c ∉ clusters ∧
      ∃ n, (clusters ≠ [] → t.entry c = some (.next n)) ∧ Walk t n clusters := by
  constructor
  · intro h
    have hhead := h.head c rfl
    have hrange := h.inRange c List.mem_cons_self
    have hnodup := List.nodup_cons.mp h.nodup
    refine ⟨hhead, hrange, hnodup.1, ?_⟩
    -- the last cluster of a walk needs no entry
    cases clusters with
    | nil => exact ⟨0, fun hne => absurd rfl hne, walk_nil⟩
    | cons n clusters =>
      have hlinked := List.isChain_cons_cons.mp h.linked
      refine ⟨n, fun _ => hlinked.1, ?_, hlinked.2, ?_, hnodup.2⟩
      · intro d hd
        exact (Option.some.inj hd).symm
      · intro d hd
        exact h.inRange d (List.mem_cons_of_mem _ hd)
  · intro ⟨hhead, hrange, hfresh, n, hentry, hwalk⟩
    constructor
    · intro d hd
      exact (Option.some.inj hd).symm.trans hhead
    · cases clusters with
      | nil => exact .singleton _
      | cons d clusters =>
        obtain rfl : d = n := hwalk.head d rfl
        exact List.isChain_cons_cons.mpr ⟨hentry (List.cons_ne_nil _ _), hwalk.linked⟩
    · intro d hd
      cases List.mem_cons.mp hd with
      | inl heq => rw [heq]; exact hrange
      | inr hmem => exact hwalk.inRange d hmem
    · exact List.nodup_cons.mpr ⟨hfresh, hwalk.nodup⟩

/-! ## The loop -/

/-- The loop of `chain` stops before `current`. -/
theorem chainFrom_stop (h : current < 2 ∨ current ≥ t.clusterCount + 2 ∨ current ∈ visited) :
    t.chainFrom (left + 1) current visited = ([], false) := by
  unfold FatTable.chainFrom
  by_cases hrange : current < 2 ∨ current ≥ t.clusterCount + 2
  · rw [if_pos hrange]
  · have hvisited : current ∈ visited := by
      cases h with
      | inl h => exact absurd (.inl h) hrange
      | inr h => exact h.resolve_left fun h => hrange (.inr h)
    rw [if_neg hrange, if_pos hvisited]

section Step

variable (hlow : 2 ≤ current) (hhigh : current < t.clusterCount + 2) (hfresh : current ∉ visited)

include hlow hhigh hfresh

theorem chainFrom_next {n : Nat} (hentry : t.entry current = some (.next n)) :
    t.chainFrom (left + 1) current visited =
      (current :: (t.chainFrom left n (current :: visited)).1,
        (t.chainFrom left n (current :: visited)).2) := by
  rw [FatTable.chainFrom, if_neg (by omega), if_neg hfresh, hentry]

/-- Behind any other entry the chain is over, completely so at an end-of-chain entry. -/
theorem chainFrom_last (hentry : ∀ n, t.entry current ≠ some (.next n)) :
    t.chainFrom (left + 1) current visited =
      ([current], decide (t.entry current = some .endOfChain)) := by
  rw [FatTable.chainFrom, if_neg (by omega), if_neg hfresh]
  split
  · next n hnext => exact absurd hnext (hentry n)
  · next hend => rw [hend]; rfl
  · next hend =>
    rw [decide_eq_false]
    exact hend

end Step

/-- The chain from `current` is a walk over clusters not visited yet, of at most `left` steps. -/
theorem chainFrom_walk (t : FatTable) (left current : Nat) (visited : List Nat) :
    Walk t current (t.chainFrom left current visited).1 ∧
      (∀ c ∈ (t.chainFrom left current visited).1, c ∉ visited) ∧
      (t.chainFrom left current visited).1.length ≤ left := by
  -- on the clusters left, along the links of the table
  induction left generalizing current visited with
  | zero =>
    refine ⟨walk_nil, fun c hc => ?_, Nat.le_refl _⟩
    cases hc
  | succ left ih =>
    -- out of range or already visited, so the chain ends before this cluster
    by_cases hstop : current < 2 ∨ current ≥ t.clusterCount + 2 ∨ current ∈ visited
    · rw [chainFrom_stop hstop]
      refine ⟨walk_nil, fun c hc => ?_, Nat.zero_le _⟩
      cases hc
    · simp only [not_or, Nat.not_lt] at hstop
      obtain ⟨hlow, hhigh, hfresh⟩ := hstop
      by_cases hnext : ∃ n, t.entry current = some (.next n)
      · obtain ⟨n, hentry⟩ := hnext
        obtain ⟨hwalk, hunseen, hlength⟩ := ih n (current :: visited)
        rw [chainFrom_next hlow (by omega) hfresh hentry]
        refine ⟨walk_cons.mpr ⟨rfl, ⟨hlow, by omega⟩, ?_, n, fun _ => hentry, hwalk⟩, ?_,
          Nat.succ_le_succ hlength⟩
        · intro hmem
          exact hunseen current hmem List.mem_cons_self
        · intro c hc
          cases List.mem_cons.mp hc with
          | inl heq => rw [heq]; exact hfresh
          | inr hmem => exact fun hvisited => hunseen c hmem (List.mem_cons_of_mem _ hvisited)
      · rw [chainFrom_last hlow (by omega) hfresh fun n hn => hnext ⟨n, hn⟩]
        refine ⟨walk_cons.mpr ⟨rfl, ⟨hlow, by omega⟩, List.not_mem_nil, 0,
          fun hne => absurd rfl hne, walk_nil⟩, ?_, Nat.succ_le_succ (Nat.zero_le _)⟩
        intro c hc
        rw [List.mem_singleton.mp hc]
        exact hfresh

/-- A chain is complete when its last cluster is an end of chain. -/
theorem chainFrom_complete_iff (t : FatTable) (left current : Nat) (visited : List Nat) :
    (t.chainFrom left current visited).2 = true ↔
      ∃ c, (t.chainFrom left current visited).1.getLast? = some c ∧
        t.entry c = some .endOfChain := by
  induction left generalizing current visited with
  | zero => simp [FatTable.chainFrom]
  | succ left ih =>
    by_cases hstop : current < 2 ∨ current ≥ t.clusterCount + 2 ∨ current ∈ visited
    · rw [chainFrom_stop hstop]
      simp
    · simp only [not_or, Nat.not_lt] at hstop
      obtain ⟨hlow, hhigh, hfresh⟩ := hstop
      by_cases hnext : ∃ n, t.entry current = some (.next n)
      · obtain ⟨n, hentry⟩ := hnext
        rw [chainFrom_next hlow (by omega) hfresh hentry]
        dsimp only
        rw [ih n (current :: visited)]
        cases hrest : (t.chainFrom left n (current :: visited)).1 with
        | nil => simp [hentry]
        | cons d rest => rw [List.getLast?_cons_cons]
      · rw [chainFrom_last hlow (by omega) hfresh fun n hn => hnext ⟨n, hn⟩]
        simp

/-- A walk of at most `left` clusters, none of them visited, is a prefix of the chain. -/
theorem prefix_chainFrom (t : FatTable) {w : List Nat} (hwalk : Walk t current w)
    (hunseen : ∀ c ∈ w, c ∉ visited) (hlength : w.length ≤ left) :
    w <+: (t.chainFrom left current visited).1 := by
  induction w generalizing left current visited with
  | nil => exact List.nil_prefix
  | cons c w ih =>
    obtain ⟨rfl, ⟨hlow, hhigh⟩, hfresh, n, hentry, hrest⟩ := walk_cons.mp hwalk
    have hunseen_head := hunseen c List.mem_cons_self
    obtain ⟨left, rfl⟩ := Nat.exists_eq_add_of_le' (Nat.le_trans (Nat.succ_pos _) hlength)
    cases w with
    | nil =>
      by_cases hnext : ∃ n, t.entry c = some (.next n)
      · obtain ⟨n, hentry⟩ := hnext
        rw [chainFrom_next hlow hhigh hunseen_head hentry]
        exact List.cons_prefix_cons.mpr ⟨rfl, List.nil_prefix⟩
      · have hlast := @chainFrom_last t left c visited hlow hhigh hunseen_head
          fun n hn => hnext ⟨n, hn⟩
        exact hlast ▸ List.prefix_refl _
    | cons d w =>
      rw [chainFrom_next hlow hhigh hunseen_head (hentry (List.cons_ne_nil _ _))]
      apply List.cons_prefix_cons.mpr
      refine ⟨rfl, ih hrest ?_ (Nat.le_of_succ_le_succ hlength)⟩
      intro e he hvisited
      cases List.mem_cons.mp hvisited with
      | inl heq => rw [heq] at he; exact hfresh he
      | inr hmem => exact hunseen e (List.mem_cons_of_mem _ he) hmem

/-! ## Packed tables -/

/-- The bits of an entry that hold its value. -/
def entryBits : FatVariant → Nat
  | .fat12 => 12
  | .fat16 => 16
  | .fat32 => 28

/-- The bytes of 12-bit values, two of which share three bytes. -/
def packed12 : List Nat → Bytes
  | [] => []
  | [v] => Bytes.ofLE 2 v
  | v :: w :: values => Bytes.ofLE 3 (v + 2 ^ 12 * w) ++ packed12 values

/-- The bytes of a table with the given values. -/
def packed : FatVariant → List Nat → Bytes
  | .fat12, values => packed12 values
  | .fat16, values => values.flatMap (Bytes.ofLE 2)
  | .fat32, values => values.flatMap (Bytes.ofLE 4)

/-- The end of the bytes of entry `c`. -/
def entryEnd (variant : FatVariant) (c : Nat) : Nat :=
  match variant with
  | .fat12 => c + c / 2 + 2
  | .fat16 => c * 2 + 2
  | .fat32 => c * 4 + 4

section Shift

variable {raw x : Bytes} {n : Nat}

theorem u8At_append (hx : x.length ≤ c) : Le.u8At (x ++ raw) c = Le.u8At raw (c - x.length) := by
  unfold Le.u8At
  rw [List.getElem?_append_right hx]

theorem u32At_append (hx : x.length ≤ c) : Le.u32At (x ++ raw) c = Le.u32At raw (c - x.length) := by
  have hslice : (x ++ raw).slice c (c + 4) = raw.slice (c - x.length) (c - x.length + 4) := by
    apply List.ext_getElem?
    intro i
    rw [Bytes.getElem?_slice, Bytes.getElem?_slice, List.getElem?_append_right (by omega)]
    congr 2 <;> omega
  unfold Le.u32At Bytes.getRange?
  rw [hslice, List.length_append]
  congr 1
  apply if_congr (by omega) rfl rfl

/-- The entries behind the first three bytes of a table of 12-bit values. -/
theorem rawEntry12_append (hx : x.length = 3) :
    FatTable.rawEntry ⟨.fat12, x ++ raw, n⟩ (c + 2) = FatTable.rawEntry ⟨.fat12, raw, n⟩ c := by
  have hoff : c + 2 + (c + 2) / 2 = c + c / 2 + 3 := by omega
  have hparity : (c + 2) % 2 = c % 2 := by omega
  simp only [FatTable.rawEntry]
  rw [u8At_append (by omega), u8At_append (by omega), hoff, hparity, hx, Nat.add_sub_cancel,
    show c + c / 2 + 3 + 1 - 3 = c + c / 2 + 1 by omega]

theorem rawEntry16_append (hx : x.length = 2) :
    FatTable.rawEntry ⟨.fat16, x ++ raw, n⟩ (c + 1) = FatTable.rawEntry ⟨.fat16, raw, n⟩ c := by
  simp only [FatTable.rawEntry]
  rw [u8At_append (by omega), u8At_append (by omega), hx,
    show (c + 1) * 2 - 2 = c * 2 by omega, show (c + 1) * 2 + 1 - 2 = c * 2 + 1 by omega]

theorem rawEntry32_append (hx : x.length = 4) :
    FatTable.rawEntry ⟨.fat32, x ++ raw, n⟩ (c + 1) = FatTable.rawEntry ⟨.fat32, raw, n⟩ c := by
  simp only [FatTable.rawEntry]
  rw [u32At_append (by omega), hx, show (c + 1) * 4 - 4 = c * 4 by omega]

end Shift

/-- Two bytes, joined as the table reads them. -/
theorem or_shiftLeft (lo hi : UInt8) :
    lo.toNat ||| (hi.toNat <<< 8) = lo.toNat + 256 * hi.toNat := by
  rw [Nat.or_comm, ← Nat.shiftLeft_add_eq_or_of_lt lo.toNat_lt, Nat.shiftLeft_eq]
  omega

theorem ofLE_three (n : Nat) :
    Bytes.ofLE 3 n = [UInt8.ofNat n, UInt8.ofNat (n / 256), UInt8.ofNat (n / 65536)] := by
  simp [Bytes.ofLE, Nat.div_div_eq_div_mul]

theorem ofLE_two (n : Nat) : Bytes.ofLE 2 n = [UInt8.ofNat n, UInt8.ofNat (n / 256)] := rfl

/-- The first two values of a table of 12-bit values. -/
theorem rawEntry12_pair {raw : Bytes} {v w n : Nat} (hv : v < 2 ^ 12) (hw : w < 2 ^ 12) :
    FatTable.rawEntry ⟨.fat12, Bytes.ofLE 3 (v + 2 ^ 12 * w) ++ raw, n⟩ 0 = some v ∧
      FatTable.rawEntry ⟨.fat12, Bytes.ofLE 3 (v + 2 ^ 12 * w) ++ raw, n⟩ 1 = some w := by
  rw [ofLE_three]
  simp only [FatTable.rawEntry, Le.u8At, List.cons_append, Nat.zero_add, Nat.zero_div,
    List.getElem?_cons_zero, List.getElem?_cons_succ, Option.map_some, Option.pure_def,
    Option.bind_eq_bind, Option.bind_some, Nat.reduceDiv, Nat.add_zero, Nat.reduceAdd, or_shiftLeft,
    show (0x0FFF : Nat) = 2 ^ 12 - 1 from rfl, Nat.and_two_pow_sub_one_eq_mod,
    Nat.shiftRight_eq_div_pow, Option.some.injEq]
  rw [UInt8.toNat_ofNat', UInt8.toNat_ofNat', UInt8.toNat_ofNat']
  constructor
  · rw [if_pos trivial]
    omega
  · rw [if_neg (by decide)]
    omega

theorem rawEntry_packed12 {values : List Nat} (hvalues : ∀ v ∈ values, v < 2 ^ 12) {n : Nat}
    (hend : entryEnd .fat12 c ≤ (packed12 values).length) :
    ∃ v, values[c]? = some v ∧ FatTable.rawEntry ⟨.fat12, packed12 values, n⟩ c = some v := by
  simp only [entryEnd] at hend
  -- two entries share three bytes, so the induction takes them in pairs
  induction values using packed12.induct generalizing c with
  | case1 =>
    simp only [packed12, List.length_nil] at hend
    omega
  | case2 v =>
    simp only [packed12, Bytes.length_ofLE] at hend
    obtain rfl : c = 0 := by omega
    have hv := hvalues v List.mem_cons_self
    refine ⟨v, rfl, ?_⟩
    simp only [FatTable.rawEntry, packed12, ofLE_two, Le.u8At, Nat.zero_add, Nat.zero_div,
      List.getElem?_cons_zero, List.getElem?_cons_succ, Option.map_some, Option.pure_def,
      Option.bind_eq_bind, Option.bind_some, or_shiftLeft,
      show (0x0FFF : Nat) = 2 ^ 12 - 1 from rfl, Nat.and_two_pow_sub_one_eq_mod,
      Option.some.injEq]
    rw [UInt8.toNat_ofNat', UInt8.toNat_ofNat', if_pos trivial]
    omega
  | case3 v w values ih =>
    have hv := hvalues v List.mem_cons_self
    have hw := hvalues w (List.mem_cons_of_mem _ List.mem_cons_self)
    have hpair := @rawEntry12_pair (packed12 values) v w n hv hw
    simp only [packed12] at hend ⊢
    rcases c with _ | _ | c
    · exact ⟨v, rfl, hpair.1⟩
    · exact ⟨w, rfl, hpair.2⟩
    · rw [List.length_append, Bytes.length_ofLE] at hend
      rw [rawEntry12_append (Bytes.length_ofLE 3 _)]
      exact ih (fun u hu => hvalues u (List.mem_cons_of_mem _ (List.mem_cons_of_mem _ hu)))
        (by omega)

theorem rawEntry_packed16 {values : List Nat} (hvalues : ∀ v ∈ values, v < 2 ^ 16) {n : Nat}
    (hend : entryEnd .fat16 c ≤ (packed .fat16 values).length) :
    ∃ v, values[c]? = some v ∧ FatTable.rawEntry ⟨.fat16, packed .fat16 values, n⟩ c = some v := by
  simp only [entryEnd] at hend
  induction values generalizing c with
  | nil =>
    simp only [packed, List.flatMap_nil, List.length_nil] at hend
    omega
  | cons v values ih =>
    have hv := hvalues v List.mem_cons_self
    simp only [packed, List.flatMap_cons] at hend ih ⊢
    cases c with
    | zero =>
      refine ⟨v, rfl, ?_⟩
      rw [ofLE_two]
      simp only [FatTable.rawEntry, Le.u8At, List.cons_append, Nat.zero_mul, Nat.zero_add,
        List.getElem?_cons_zero, List.getElem?_cons_succ, Option.map_some, Option.pure_def,
        Option.bind_eq_bind, Option.bind_some, or_shiftLeft, Option.some.injEq]
      rw [UInt8.toNat_ofNat', UInt8.toNat_ofNat']
      omega
    | succ c =>
      rw [List.length_append, Bytes.length_ofLE] at hend
      rw [rawEntry16_append (Bytes.length_ofLE 2 v)]
      exact ih (fun u hu => hvalues u (List.mem_cons_of_mem _ hu)) (by omega)

theorem rawEntry_packed32 {values : List Nat} (hvalues : ∀ v ∈ values, v < 2 ^ 28) {n : Nat}
    (hend : entryEnd .fat32 c ≤ (packed .fat32 values).length) :
    ∃ v, values[c]? = some v ∧ FatTable.rawEntry ⟨.fat32, packed .fat32 values, n⟩ c = some v := by
  simp only [entryEnd] at hend
  induction values generalizing c with
  | nil =>
    simp only [packed, List.flatMap_nil, List.length_nil] at hend
    omega
  | cons v values ih =>
    have hv := hvalues v List.mem_cons_self
    simp only [packed, List.flatMap_cons] at hend ih ⊢
    cases c with
    | zero =>
      refine ⟨v, rfl, ?_⟩
      have hslice : (Bytes.ofLE 4 v ++ values.flatMap (Bytes.ofLE 4)).slice 0 (0 + 4) =
          Bytes.ofLE 4 v := by
        rw [Bytes.slice, List.drop_zero]
        exact List.take_left' (Bytes.length_ofLE 4 v)
      simp only [FatTable.rawEntry, Le.u32At, Nat.zero_mul, Bytes.getRange?]
      rw [if_pos (by rw [List.length_append, Bytes.length_ofLE]; omega), hslice, Option.map_some,
        Option.map_some, Bytes.leValue_ofLE (by omega),
        show (0x0FFFFFFF : Nat) = 2 ^ 28 - 1 from rfl,
        Nat.and_two_pow_sub_one_eq_mod, Nat.mod_eq_of_lt hv]
    | succ c =>
      rw [List.length_append, Bytes.length_ofLE] at hend
      rw [rawEntry32_append (Bytes.length_ofLE 4 v)]
      exact ih (fun u hu => hvalues u (List.mem_cons_of_mem _ hu)) (by omega)

/-- An entry whose bytes are present does not depend on the bytes behind them. -/
theorem rawEntry_of_isPrefixOf {variant : FatVariant} {raw full : Bytes} {n : Nat}
    (h : raw <+: full)
    (hend : entryEnd variant c ≤ raw.length) :
    FatTable.rawEntry ⟨variant, raw, n⟩ c = FatTable.rawEntry ⟨variant, full, n⟩ c := by
  obtain ⟨rest, rfl⟩ := h
  have hbyte : ∀ i < entryEnd variant c, Le.u8At raw i = Le.u8At (raw ++ rest) i := by
    intro i hi
    unfold Le.u8At
    rw [List.getElem?_append_left (by omega)]
  cases variant with
  | fat12 =>
    simp only [entryEnd] at hend hbyte
    simp only [FatTable.rawEntry, hbyte (c + c / 2) (by omega), hbyte (c + c / 2 + 1) (by omega)]
  | fat16 =>
    simp only [entryEnd] at hend hbyte
    simp only [FatTable.rawEntry, hbyte (c * 2) (by omega), hbyte (c * 2 + 1) (by omega)]
  | fat32 =>
    simp only [entryEnd] at hend
    have hslice : (raw ++ rest).slice (c * 4) (c * 4 + 4) = raw.slice (c * 4) (c * 4 + 4) := by
      apply List.ext_getElem?
      intro i
      rw [Bytes.getElem?_slice, Bytes.getElem?_slice]
      split
      · rw [List.getElem?_append_left (by omega)]
      · rfl
    simp only [FatTable.rawEntry, Le.u32At, Bytes.getRange?, hslice]
    rw [if_pos (by omega), if_pos (by rw [List.length_append]; omega)]

/-! ## Chains and tables together -/

/-- The chain is the longest walk from `start` of the permitted length, and complete when its
    last cluster is an end of chain; and every entry of a packed table whose bytes are present
    is the value that was packed. -/
theorem chain_longest_packed (start limit : Nat) :
    (∀ t : FatTable,
      (Walk t start (t.chain start limit).1 ∧
        (t.chain start limit).1.length ≤ min limit t.clusterCount ∧
        ∀ w, Walk t start w → w.length ≤ min limit t.clusterCount →
          w <+: (t.chain start limit).1) ∧
      ((t.chain start limit).2 = true ↔
        ∃ c, (t.chain start limit).1.getLast? = some c ∧ t.entry c = some .endOfChain)) ∧
    ∀ (variant : FatVariant) (values : List Nat) (raw : Bytes) (clusterCount c : Nat),
      (∀ v ∈ values, v < 2 ^ entryBits variant) → raw <+: packed variant values →
      entryEnd variant c ≤ raw.length →
        ∃ v, values[c]? = some v ∧ FatTable.rawEntry ⟨variant, raw, clusterCount⟩ c = some v := by
  constructor
  · intro t
    obtain ⟨hwalk, -, hlength⟩ := chainFrom_walk t (min limit t.clusterCount) start []
    refine ⟨⟨hwalk, hlength, ?_⟩, chainFrom_complete_iff t _ start []⟩
    intro w hw hle
    exact prefix_chainFrom t hw (fun c _ => List.not_mem_nil) hle
  · intro variant values raw clusterCount c hvalues hraw hend
    have hlength := hraw.length_le
    rw [rawEntry_of_isPrefixOf hraw hend]
    cases variant with
    | fat12 => exact rawEntry_packed12 hvalues (Nat.le_trans hend hlength)
    | fat16 => exact rawEntry_packed16 hvalues (Nat.le_trans hend hlength)
    | fat32 => exact rawEntry_packed32 hvalues (Nat.le_trans hend hlength)

/-- A table of 12-bit values, cut off inside its last entry, whose clusters 2 and 4 form a
    chain. -/
theorem chain_longest_packed_fat12 :
    (FatTable.chain ⟨.fat12, (packed .fat12 [0xFF8, 0xFFF, 4, 2, 0xFFF, 7]).take 8, 4⟩ 2 9) =
        ([2, 4], true) ∧
      FatTable.rawEntry ⟨.fat12, (packed .fat12 [0xFF8, 0xFFF, 4, 2, 0xFFF, 7]).take 8, 4⟩ 3 =
        some 2 := by
  refine ⟨by decide +kernel, ?_⟩
  obtain ⟨v, hv, hentry⟩ := (chain_longest_packed 2 9).2 .fat12 [0xFF8, 0xFFF, 4, 2, 0xFFF, 7]
    ((packed .fat12 [0xFF8, 0xFFF, 4, 2, 0xFFF, 7]).take 8) 4 3 (by decide)
    (List.take_prefix _ _) (by decide +kernel)
  rw [hentry, ← hv]
  rfl

end Undelete.Fat
