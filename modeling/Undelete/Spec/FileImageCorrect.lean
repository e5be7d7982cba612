import Mathlib.Data.Nat.ModEq
import Undelete.Native.FileImage
import Undelete.Native.Source

/-!
# What a best-effort read of an image file delivers

On a file whose raw reads fail where they touch an unreadable byte. The retry goes by chunks of
a sector's length, counted from the start of the request: what it reports as unreadable are the
chunks that hold an unreadable byte (`coarsened`). That is exact when the request starts at a
sector, and in general when no chunk holds bytes of both kinds.
-/

namespace Undelete

/-- What an exact best-effort read of `length` bytes leaves in the buffer and reports. -/
structure ReadsExactly (byte : Nat → UInt8) (bad : Nat → Prop) (offset length : Nat) (out : Bytes)
    (outcome : ReadOutcome) : Prop extends Delivers byte bad offset out outcome where
  filled : out.length = length
  zero : ∀ i < length, bad (offset + i) → out[i]? = some 0
  sorted : outcome.badRanges.Pairwise fun r s => r.1 + r.2 ≤ s.1

theorem ReadsExactly.congr {byte : Nat → UInt8} {bad bad' : Nat → Prop} {offset length : Nat}
    {out : Bytes} {outcome : ReadOutcome} (h : ReadsExactly byte bad offset length out outcome)
    (hbad : ∀ i < length, bad (offset + i) ↔ bad' (offset + i)) :
    ReadsExactly byte bad' offset length out outcome where
  good i hi hgood := h.good i hi (by rwa [hbad i (by rw [← h.filled]; exact hi)])
  inside := h.inside
  disjoint := h.disjoint
  covers i hi := by
    rw [← h.covers i hi, hbad i (by rw [← h.filled]; exact hi)]
  bytesValid := h.bytesValid
  filled := h.filled
  zero i hi hzero := h.zero i hi ((hbad i hi).mpr hzero)
  sorted := h.sorted

/-- What is read is exact for one set of unreadable bytes only. -/
theorem ReadsExactly.unique {byte : Nat → UInt8} {bad bad' : Nat → Prop} {offset length : Nat}
    {out : Bytes} {outcome : ReadOutcome} (h : ReadsExactly byte bad offset length out outcome)
    (h' : ReadsExactly byte bad' offset length out outcome) {i : Nat} (hi : i < length) :
    bad (offset + i) ↔ bad' (offset + i) := by
  have hlt : i < out.length := by rw [h.filled]; exact hi
  rw [h.covers i hlt, h'.covers i hlt]

theorem readsExactly_complete {byte : Nat → UInt8} {bad : Nat → Prop} {offset length : Nat}
    (h : ∀ i < length, ¬bad (offset + i)) :
    ReadsExactly byte bad offset length (Bytes.window byte offset length) ⟨length, []⟩ where
  good i hi _ := by
    rw [Bytes.length_window] at hi
    rw [Bytes.getElem?_window, if_pos hi]
  inside r hr := by cases hr
  disjoint := List.Pairwise.nil
  covers i hi := by
    rw [Bytes.length_window] at hi
    simp [h i hi]
  bytesValid := by simp
  filled := Bytes.length_window ..
  zero i hi hbad := absurd hbad (h i hi)
  sorted := List.Pairwise.nil

/-- Nothing is read. -/
theorem readsExactly_nothing {byte : Nat → UInt8} {bad : Nat → Prop} {offset length : Nat}
    (hpos : 0 < length) (h : ∀ i < length, bad (offset + i)) :
    ReadsExactly byte bad offset length (List.replicate length 0) ⟨0, [(0, length)]⟩ where
  good i hi hgood := by
    rw [List.length_replicate] at hi
    exact absurd (h i hi) hgood
  inside r hr := by
    rw [List.mem_singleton.mp hr, List.length_replicate]
    exact ⟨hpos, by omega⟩
  disjoint := List.pairwise_singleton _ _
  covers i hi := by
    rw [List.length_replicate] at hi
    simp [h i hi, hi]
  bytesValid := by simp
  filled := List.length_replicate
  zero i hi _ := by rw [List.getElem?_replicate, if_pos hi]
  sorted := List.pairwise_singleton _ _

/-! ## Faulty files -/

/-- A raw read inside the file fails where it touches a byte of `bad`, and only there. -/
structure RawFile.Faulty {σ : Type} (file : RawFile σ) (len : Nat) (byte : Nat → UInt8)
    (bad : Nat → Prop) : Prop where
  good : ∀ s offset n, 0 < n → offset + n ≤ len → (∀ i < n, ¬bad (offset + i)) →
    (file.readAt s offset n).1 = .ok (Bytes.window byte offset n)
  failed : ∀ s offset n, offset + n ≤ len → (∃ i < n, bad (offset + i)) →
    ∃ e, (file.readAt s offset n).1 = .error e ∧ e.kind ≠ .interrupted

namespace FileImageReader

variable {σ : Type} {file : RawFile σ} {reader : FileImageReader} {byte : Nat → UInt8}
  {bad : Nat → Prop} {offset length : Nat}

theorem readExactAt_faulty (h : file.Faulty reader.len byte bad) (s : σ)
    (hin : offset + length ≤ reader.len) :
    (∀ i < length, ¬bad (offset + i)) ∧
        (readExactAt file reader s offset length).1 = .ok (Bytes.window byte offset length) ∨
      (∃ i < length, bad (offset + i)) ∧
        ∃ e, (readExactAt file reader s offset length).1 = .error e := by
  have hlt := reader.len_lt
  unfold readExactAt
  rw [U64.checkedAdd_of_lt (by omega)]
  dsimp only
  rw [if_neg (by omega), readExactAt.go]
  by_cases hzero : length = 0
  · rw [if_pos hzero, hzero]
    exact .inl ⟨fun i hi => (by omega), rfl⟩
  rw [if_neg hzero]
  -- the raw read fails as a whole when one of its bytes is bad
  rcases Classical.em (∃ i < length, bad (offset + i)) with hbad | hnone
  · obtain ⟨e, hread, hkind⟩ := h.failed s offset length hin hbad
    refine .inr ⟨hbad, ?_⟩
    split
    all_goals rename_i heq; rw [show offset + ([] : Bytes).length = offset from rfl] at heq
    · rw [heq] at hread
      cases hread
    · rw [heq] at hread
      cases hread
    · rw [heq] at hread
      cases hread
      rw [dif_neg hkind]
      exact ⟨_, rfl⟩
  · -- one raw read fills the buffer
    have hgood : ∀ i < length, ¬bad (offset + i) := fun i hi hbad => hnone ⟨i, hi, hbad⟩
    have hread := h.good s offset length (by omega) hin hgood
    refine .inl ⟨hgood, ?_⟩
    split
    all_goals rename_i heq; rw [show offset + ([] : Bytes).length = offset from rfl] at heq
    · rw [heq] at hread
      have := congrArg List.length (Except.ok.inj hread)
      rw [Bytes.length_window] at this
      simp only [List.length_nil] at this
      omega
    · rw [heq] at hread
      have hwindow := Except.ok.inj hread
      have := congrArg List.length hwindow
      rw [Bytes.length_window, List.length_cons] at this
      rw [readExactAt.go, if_pos (by omega), List.nil_append, hwindow]
    · rw [heq] at hread
      cases hread

theorem readChunk_faulty (h : file.Faulty reader.len byte bad) (s : σ) (offset pos chunk : Nat)
    (hpos : 0 < chunk) (hin : offset + pos + chunk ≤ reader.len) :
    (∀ i < chunk, ¬bad (offset + pos + i)) ∧ (readChunk file reader s offset pos chunk).1 =
        some (Bytes.window byte (offset + pos) chunk) ∨
      (∃ i < chunk, bad (offset + pos + i)) ∧
      (readChunk file reader s offset pos chunk).1 = none := by
  have hlt := reader.len_lt
  unfold readChunk
  rw [U64.checkedAdd_of_lt (by omega), Option.bind_some, U64.checkedAdd_of_lt (by omega),
    Option.map_some]
  dsimp only
  rw [if_neg (by omega)]
  rcases Classical.em (∃ i < chunk, bad (offset + pos + i)) with hbad | hnone
  · obtain ⟨e, hread, _⟩ := h.failed s (offset + pos) chunk hin hbad
    cases hcall : file.readAt s (offset + pos) chunk with
    | mk result s' =>
      rw [hcall] at hread
      cases hread
      exact .inr ⟨hbad, rfl⟩
  · have hgood : ∀ i < chunk, ¬bad (offset + pos + i) := fun i hi hbad => hnone ⟨i, hi, hbad⟩
    have hread := h.good s (offset + pos) chunk hpos hin hgood
    cases hcall : file.readAt s (offset + pos) chunk with
    | mk result s' =>
      rw [hcall] at hread
      cases hread
      exact .inl ⟨hgood, if_pos (Bytes.length_window ..)⟩

/-! ## The retry -/

/-- The bytes in a chunk of the request that holds an unreadable byte. -/
def coarsened (sector : Nat) (bad : Nat → Prop) (offset length : Nat) (k : Nat) : Prop :=
  ∃ j < length, j / sector = (k - offset) / sector ∧ bad (offset + j)

/-- What the retry from `pos` on returns. -/
structure Retried (byte : Nat → UInt8) (bad : Nat → Prop) (offset length pos : Nat) (out : Bytes)
    (outcome : ReadOutcome) : Prop where
  filled : out.length = length - pos
  good : ∀ i, pos ≤ i → i < length → ¬bad (offset + i) → out[i - pos]? = some (byte (offset + i))
  zero : ∀ i, pos ≤ i → i < length → bad (offset + i) → out[i - pos]? = some 0
  inside : ∀ r ∈ outcome.badRanges, pos ≤ r.1 ∧ 0 < r.2 ∧ r.1 + r.2 ≤ length
  sorted : outcome.badRanges.Pairwise fun r s => r.1 + r.2 ≤ s.1
  covers : ∀ i, pos ≤ i → i < length →
    (bad (offset + i) ↔ ∃ r ∈ outcome.badRanges, r.1 ≤ i ∧ i < r.1 + r.2)
  bytesValid : outcome.bytesValid + (outcome.badRanges.map Prod.snd).sum = length - pos

theorem retried_done {pos : Nat} (hpos : length ≤ pos) :
    Retried byte bad offset length pos [] ⟨0, []⟩ where
  filled := by simp only [List.length_nil]; omega
  good i hi hlt := by omega
  zero i hi hlt := by omega
  inside r hr := by cases hr
  sorted := List.Pairwise.nil
  covers i hi hlt := by omega
  bytesValid := by simp only [List.map_nil, List.sum_nil]; omega

variable {pos chunk : Nat} {rest : Bytes} {outcome : ReadOutcome}

/-- A chunk without unreadable bytes is read. -/
theorem Retried.read (h : Retried byte bad offset length (pos + chunk) rest outcome)
    (hin : pos + chunk ≤ length) (hgood : ∀ i < chunk, ¬bad (offset + pos + i)) :
    Retried byte bad offset length pos (Bytes.window byte (offset + pos) chunk ++ rest)
      ⟨chunk + outcome.bytesValid, outcome.badRanges⟩ where
  filled := by
    rw [List.length_append, Bytes.length_window, h.filled]
    omega
  good i hi hlt hbad := by
    by_cases hchunk : i < pos + chunk
    · rw [List.getElem?_append_left (by rw [Bytes.length_window]; omega), Bytes.getElem?_window,
        if_pos (by omega), show offset + pos + (i - pos) = offset + i by omega]
    · rw [List.getElem?_append_right (by rw [Bytes.length_window]; omega), Bytes.length_window,
        show i - pos - chunk = i - (pos + chunk) by omega]
      exact h.good i (by omega) hlt hbad
  zero i hi hlt hbad := by
    -- a bad byte lies behind the chunk that was read
    have hchunk : ¬i < pos + chunk := by
      intro hchunk
      have := hgood (i - pos) (by omega)
      rw [show offset + pos + (i - pos) = offset + i by omega] at this
      exact this hbad
    rw [List.getElem?_append_right (by rw [Bytes.length_window]; omega), Bytes.length_window,
      show i - pos - chunk = i - (pos + chunk) by omega]
    exact h.zero i (by omega) hlt hbad
  inside r hr := by
    have := h.inside r hr
    omega
  sorted := h.sorted
  covers i hi hlt := by
    by_cases hchunk : i < pos + chunk
    · have hnot := hgood (i - pos) (by omega)
      rw [show offset + pos + (i - pos) = offset + i by omega] at hnot
      refine ⟨fun hbad => absurd hbad hnot, fun hrange => ?_⟩
      obtain ⟨r, hr, hlow, _⟩ := hrange
      have := h.inside r hr
      omega
    · exact h.covers i (by omega) hlt
  bytesValid := by
    have := h.bytesValid
    simp only
    omega

/-- A chunk that is not read is reported as unreadable. -/
theorem Retried.skip (h : Retried byte bad offset length (pos + chunk) rest outcome)
    (hpos : 0 < chunk) (hin : pos + chunk ≤ length) (hbad : ∀ i < chunk, bad (offset + pos + i)) :
    Retried byte bad offset length pos (List.replicate chunk 0 ++ rest)
      ⟨outcome.bytesValid, (pos, chunk) :: outcome.badRanges⟩ where
  filled := by
    rw [List.length_append, List.length_replicate, h.filled]
    omega
  good i hi hlt hgood := by
    -- the whole chunk counts as bad, so a good byte lies behind it
    have hchunk : ¬i < pos + chunk := by
      intro hchunk
      have := hbad (i - pos) (by omega)
      rw [show offset + pos + (i - pos) = offset + i by omega] at this
      exact hgood this
    rw [List.getElem?_append_right (by rw [List.length_replicate]; omega), List.length_replicate,
      show i - pos - chunk = i - (pos + chunk) by omega]
    exact h.good i (by omega) hlt hgood
  zero i hi hlt hzero := by
    by_cases hchunk : i < pos + chunk
    · rw [List.getElem?_append_left (by rw [List.length_replicate]; omega), List.getElem?_replicate,
        if_pos (by omega)]
    · rw [List.getElem?_append_right (by rw [List.length_replicate]; omega), List.length_replicate,
        show i - pos - chunk = i - (pos + chunk) by omega]
      exact h.zero i (by omega) hlt hzero
  inside r hr := by
    rcases List.mem_cons.mp hr with rfl | hr
    · exact ⟨Nat.le_refl _, hpos, hin⟩
    · have := h.inside r hr
      omega
  sorted := by
    refine List.Pairwise.cons (fun r hr => ?_) h.sorted
    exact (h.inside r hr).1
  covers i hi hlt := by
    by_cases hchunk : i < pos + chunk
    · have := hbad (i - pos) (by omega)
      rw [show offset + pos + (i - pos) = offset + i by omega] at this
      exact ⟨fun _ => ⟨(pos, chunk), List.mem_cons_self, hi, hchunk⟩, fun _ => this⟩
    · rw [h.covers i (by omega) hlt]
      constructor
      · rintro ⟨r, hr, hrange⟩
        exact ⟨r, List.mem_cons_of_mem _ hr, hrange⟩
      · rintro ⟨r, hr, hlow, hhigh⟩
        rcases List.mem_cons.mp hr with rfl | hr
        · simp only at hhigh
          omega
        · exact ⟨r, hr, hlow, hhigh⟩
  bytesValid := by
    have := h.bytesValid
    simp only [List.map_cons, List.sum_cons]
    omega

/-- The chunk at `pos` is coarsened when it holds an unreadable byte. -/
theorem coarsened_chunk {sector : Nat} (hpos : pos % sector = 0) (hin : pos < length) {i : Nat}
    (hi : i < min sector (length - pos)) :
    coarsened sector bad offset length (offset + pos + i) ↔
      ∃ j < min sector (length - pos), bad (offset + pos + j) := by
  have hsector : 0 < sector := by omega
  have hquot : ∀ {j}, j < min sector (length - pos) → (pos + j) / sector = pos / sector := by
    intro j hj
    obtain ⟨q, rfl⟩ := Nat.dvd_of_mod_eq_zero hpos
    rw [Nat.mul_add_div hsector, Nat.div_eq_of_lt (show j < sector by omega),
      Nat.mul_div_cancel_left q hsector, Nat.add_zero]
  unfold coarsened
  rw [show offset + pos + i - offset = pos + i by omega, hquot hi]
  constructor
  · rintro ⟨j, hj, hsame, hbad⟩
    obtain ⟨q, rfl⟩ := Nat.dvd_of_mod_eq_zero hpos
    rw [Nat.mul_div_cancel_left q hsector] at hsame
    have hmod := Nat.div_add_mod j sector
    have hlt := Nat.mod_lt j hsector
    rw [hsame] at hmod
    refine ⟨j - sector * q, by omega, ?_⟩
    rwa [show offset + sector * q + (j - sector * q) = offset + j by omega]
  · rintro ⟨j, hj, hbad⟩
    exact ⟨pos + j, by omega, hquot hj, by rwa [← Nat.add_assoc]⟩

theorem retryChunks_retried (h : file.Faulty reader.len byte bad)
    (hin : offset + length ≤ reader.len) (hsector : reader.sectorLayout.logical ≠ 0) (fuel : Nat)
    (s : σ) (hpos : pos % reader.sectorLayout.logical.toNat = 0 ∨ length ≤ pos)
    (hfuel : length ≤ pos + fuel) :
    ∃ out outcome s', retryChunks file reader offset length fuel s pos = (out, outcome, s') ∧
      Retried byte (coarsened reader.sectorLayout.logical.toNat bad offset length) offset length pos
        out outcome := by
  have hlt : 0 < reader.sectorLayout.logical.toNat := by
    apply Nat.pos_of_ne_zero
    intro hzero
    exact hsector (UInt32.toNat_inj.mp hzero)
  -- on the fuel, one sector-sized chunk each
  induction fuel generalizing s pos with
  | zero => exact ⟨[], ⟨0, []⟩, s, rfl, retried_done (by omega)⟩
  | succ fuel ih =>
    unfold retryChunks
    by_cases hmore : pos < length
    · have haligned : pos % reader.sectorLayout.logical.toNat = 0 := by omega
      have hcoarse : ∀ i < min reader.sectorLayout.logical.toNat (length - pos),
          (coarsened reader.sectorLayout.logical.toNat bad offset length (offset + pos + i) ↔
            ∃ j < min reader.sectorLayout.logical.toNat (length - pos), bad (offset + pos + j)) :=
        fun i hi => coarsened_chunk haligned hmore hi
      obtain ⟨chunk, hchunk⟩ : ∃ chunk, chunk =
        min reader.sectorLayout.logical.toNat (length - pos) := ⟨_, rfl⟩
      rw [if_pos hmore]
      rw [← hchunk] at hcoarse ⊢
      -- every chunk but the last is a whole sector
      have hnext : (pos + chunk) % reader.sectorLayout.logical.toNat = 0 ∨
        length ≤ pos + chunk := by
        by_cases hlast : length - pos ≤ reader.sectorLayout.logical.toNat
        · omega
        · rw [show chunk = reader.sectorLayout.logical.toNat by omega, Nat.add_mod_right]
          exact .inl haligned
      have hread := readChunk_faulty h s offset pos chunk (by omega) (by omega)
      cases hcall : readChunk file reader s offset pos chunk with
      | mk result s₁ =>
        obtain ⟨rest, outcome, s', hrest, hretried⟩ := ih s₁ hnext (by omega)
        rw [hcall] at hread
        -- the chunk is read whole or zero-filled whole
        rcases hread with ⟨hgood, rfl⟩ | ⟨hbad, rfl⟩
        · simp only [hcall, hrest]
          refine ⟨_, _, s', rfl, hretried.read (by omega) fun i hi hbad => ?_⟩
          obtain ⟨j, hj, hbad⟩ := (hcoarse i hi).mp hbad
          exact hgood j hj hbad
        · simp only [hcall, hrest]
          exact ⟨_, _, s', rfl, hretried.skip (by omega) (by omega) fun i hi =>
            (hcoarse i hi).mpr hbad⟩
    · rw [if_neg hmore]
      exact ⟨[], ⟨0, []⟩, s, rfl, retried_done (by omega)⟩

theorem Retried.readsExactly (h : Retried byte bad offset length 0 rest outcome) :
    ReadsExactly byte bad offset length rest outcome where
  filled := h.filled
  good i hi hgood := by
    have hfilled := h.filled
    exact h.good i (Nat.zero_le _) (by omega) hgood
  zero i hi hbad := h.zero i (Nat.zero_le _) hi hbad
  inside r hr := by
    have hfilled := h.filled
    have := h.inside r hr
    omega
  disjoint := h.sorted.imp fun hrs => .inl hrs
  sorted := h.sorted
  covers i hi := by
    have hfilled := h.filled
    exact h.covers i (Nat.zero_le _) (by omega)
  bytesValid := by rw [h.bytesValid, h.filled]

/-! ## Best-effort reads -/

/-- A best-effort read is exact for the chunks that hold an unreadable byte. -/
theorem readBestEffortAt_coarsened (h : file.Faulty reader.len byte bad) (s : σ)
    (hin : offset + length ≤ reader.len) :
    ReadsExactly byte (coarsened reader.sectorLayout.logical.toNat bad offset length) offset length
      (readBestEffortAt file reader s offset length).1
      (readBestEffortAt file reader s offset length).2.1 := by
  unfold readBestEffortAt
  have hread := readExactAt_faulty h s hin
  cases hcall : readExactAt file reader s offset length with
  | mk result s₁ =>
    rw [hcall] at hread
    rcases hread with ⟨hgood, rfl⟩ | ⟨⟨j, hj, hbad⟩, e, rfl⟩
    · apply readsExactly_complete
      rintro i hi ⟨j, hj, _, hbad⟩
      exact hgood j hj hbad
    · dsimp only
      by_cases hsector : reader.sectorLayout.logical = 0
      · rw [if_pos hsector]
        -- without a sector size the request is one chunk
        apply readsExactly_nothing (by omega)
        intro i hi
        refine ⟨j, hj, ?_, hbad⟩
        rw [hsector]
        show j / 0 = _ / 0
        rw [Nat.div_zero, Nat.div_zero]
      · rw [if_neg hsector]
        obtain ⟨out, outcome, s', hretry, hretried⟩ :=
          retryChunks_retried h hin hsector length s₁ (.inl (Nat.zero_mod _)) (by omega)
        rw [hretry]
        exact hretried.readsExactly

/-- A best-effort read is exact when no chunk of the request holds bytes of both kinds. -/
theorem readBestEffortAt_exact_iff (h : file.Faulty reader.len byte bad) (s : σ)
    (hin : offset + length ≤ reader.len) :
    ReadsExactly byte bad offset length (readBestEffortAt file reader s offset length).1
        (readBestEffortAt file reader s offset length).2.1 ↔
      ∀ i < length, ∀ j < length, j / reader.sectorLayout.logical.toNat =
        i / reader.sectorLayout.logical.toNat → bad (offset + j) → bad (offset + i) := by
  have hcoarse := readBestEffortAt_coarsened h s hin
  constructor
  · intro hexact i hi j hj hsame hbad
    rw [hexact.unique hcoarse hi]
    exact ⟨j, hj, by rw [show offset + i - offset = i by omega]; exact hsame, hbad⟩
  · intro hwhole
    refine hcoarse.congr fun i hi => ?_
    constructor
    · rintro ⟨j, hj, hsame, hbad⟩
      rw [show offset + i - offset = i by omega] at hsame
      exact hwhole i hi j hj hsame hbad
    · intro hbad
      exact ⟨i, hi, by rw [show offset + i - offset = i by omega], hbad⟩

/-- From the start of a sector, two bytes of one chunk are bytes of one sector. -/
theorem sector_eq_of_aligned {sector offset i j : Nat} (haligned : offset % sector = 0)
    (hsame : j / sector = i / sector) : (offset + j) / sector = (offset + i) / sector := by
  have hdvd := Nat.dvd_of_mod_eq_zero haligned
  rw [Nat.add_div_of_dvd_right hdvd, Nat.add_div_of_dvd_right hdvd, hsame]

/-- A request that starts at a sector is read exactly, where whole sectors are unreadable. -/
theorem readBestEffortAt_aligned (h : file.Faulty reader.len byte bad) (s : σ)
    (hin : offset + length ≤ reader.len) {badSector : Nat → Prop}
    (hbad : ∀ k, bad k ↔ badSector (k / reader.sectorLayout.logical.toNat))
    (haligned : offset % reader.sectorLayout.logical.toNat = 0) :
    ReadsExactly byte bad offset length (readBestEffortAt file reader s offset length).1
      (readBestEffortAt file reader s offset length).2.1 := by
  rw [readBestEffortAt_exact_iff h s hin]
  intro i _ j _ hsame
  rw [hbad, hbad, sector_eq_of_aligned haligned hsame]
  exact id

end FileImageReader

end Undelete
