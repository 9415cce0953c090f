import DemandPaging.FrameTable
import DemandPaging.Memory

/-!
# The frame table and memory, frame by frame

What each operation on the frame table does to `occupant?`, and what each operation on memory does
to `page?`. Both are indexed by frame, and both leave every other frame alone.

Claiming and releasing undo each other: a frame that is released right after it was claimed leaves
the very same table (`release?_of_claim?`), which is how a fault that fails half-way leaves no
trace in it.
-/

namespace DemandPaging

namespace FrameTable

/-- A frame that is in use exists. -/
theorem lt_size_of_occupant? {t : FrameTable} {frame : Nat} {r : EntryRef}
    (h : t.occupant? frame = some r) : frame < t.size := by
  unfold occupant? at h
  rcases Nat.lt_or_ge frame t.size with hlt | hge
  · exact hlt
  · rw [Array.getElem?_eq_none hge] at h
    simp at h

theorem occupant?_empty (frames frame : Nat) : (empty frames).occupant? frame = none := by
  unfold occupant? empty
  rw [Array.getElem?_replicate]
  split <;> rfl

@[simp] theorem size_empty (frames : Nat) : (empty frames).size = frames := by
  simp [size, empty]

/-- Entering an occupant, or none, is seen at one frame. -/
theorem occupant?_set {t : FrameTable} {frame : Nat} (hlt : frame < t.occupants.size)
    (occupant : Option EntryRef) (g : Nat) :
    occupant? ⟨t.occupants.setIfInBounds frame occupant⟩ g
      = if g = frame then occupant else t.occupant? g := by
  unfold occupant?
  rw [Array.getElem?_setIfInBounds]
  by_cases hg : g = frame
  · subst hg
    rw [if_pos rfl, if_pos hlt, if_pos rfl, Option.join_some]
  · rw [if_neg (fun e => hg e.symm), if_neg hg]

/-- A frame that is claimed was free, and is its claimant's afterwards. -/
theorem claim?_spec {t t' : FrameTable} {frame : Nat} {r : EntryRef}
    (h : t.claim? frame r = some t') :
    frame < t.size ∧ t.occupant? frame = none ∧ t'.size = t.size ∧
      ∀ g, t'.occupant? g = if g = frame then some r else t.occupant? g := by
  unfold claim? at h
  split at h
  next hf =>
    obtain ⟨hlt, -⟩ := Array.getElem?_eq_some_iff.mp hf
    simp only [Option.some.injEq] at h
    subst h
    exact ⟨hlt, by simp [occupant?, hf], by simp [size], occupant?_set hlt (some r)⟩
  next => exact absurd h (by simp)

/-- A free frame can be claimed. -/
theorem claim?_isSome {t : FrameTable} {frame : Nat} (hlt : frame < t.size)
    (hfree : t.occupant? frame = none) (r : EntryRef) : ∃ t', t.claim? frame r = some t' := by
  have hf : t.occupants[frame]? = some none := by
    unfold occupant? at hfree
    rw [Array.getElem?_eq_getElem hlt, Option.join_some] at hfree
    rw [Array.getElem?_eq_getElem hlt, hfree]
  exact ⟨⟨t.occupants.setIfInBounds frame (some r)⟩, by rw [claim?, hf]⟩

/-- A frame that is released is free, and the others keep their pages. -/
theorem release?_spec {t t' : FrameTable} {frame : Nat} (h : t.release? frame = some t') :
    frame < t.size ∧ t'.size = t.size ∧
      ∀ g, t'.occupant? g = if g = frame then none else t.occupant? g := by
  unfold release? at h
  split at h
  next hlt =>
    simp only [Option.some.injEq] at h
    subst h
    exact ⟨hlt, by simp [size], occupant?_set hlt none⟩
  next => exact absurd h (by simp)

/-- Every frame that exists can be released. -/
theorem release?_isSome {t : FrameTable} {frame : Nat} (hlt : frame < t.size) :
    ∃ t', t.release? frame = some t' :=
  ⟨⟨t.occupants.setIfInBounds frame none⟩, if_pos hlt⟩

/-- Releasing a frame right after it was claimed undoes the claim. -/
theorem release?_of_claim? {t t' : FrameTable} {frame : Nat} {r : EntryRef}
    (h : t.claim? frame r = some t') : t'.release? frame = some t := by
  unfold claim? at h
  split at h
  next hf =>
    obtain ⟨hlt, hval⟩ := Array.getElem?_eq_some_iff.mp hf
    simp only [Option.some.injEq] at h
    subst h
    unfold release?
    rw [if_pos (by simpa using hlt), Option.some.injEq]
    cases t with
    | mk occupants =>
      simp only [mk.injEq]
      simp only at hlt hval
      refine Array.ext (by simp) fun g hg hg' => ?_
      by_cases hgf : frame = g
      · subst hgf
        simp [hval]
      · simp only [Array.setIfInBounds_setIfInBounds]
        exact Array.getElem_setIfInBounds_ne hg' hgf
  next => exact absurd h (by simp)

/-- The frame that is found exists and is free. -/
theorem firstFree?_eq_some {t : FrameTable} {frame : Nat} (h : t.firstFree? = some frame) :
    frame < t.size ∧ t.occupant? frame = none := by
  obtain ⟨hlt, hfree, -⟩ := Array.findIdx?_eq_some_iff_getElem.mp h
  refine ⟨hlt, ?_⟩
  unfold occupant?
  rw [Array.getElem?_eq_getElem hlt, Option.join_some]
  exact Option.isNone_iff_eq_none.mp hfree

/-- Below the lowest free frame every frame has an occupant. -/
theorem firstFree?_lowest {t : FrameTable} {frame g : Nat} (h : t.firstFree? = some frame)
    (hlt : g < frame) : ∃ r, t.occupant? g = some r := by
  obtain ⟨hframe, -, hbelow⟩ := Array.findIdx?_eq_some_iff_getElem.mp h
  have hsome : t.occupants[g].isNone = false := eq_false_of_ne_true (hbelow g hlt)
  obtain ⟨r, hr⟩ := Option.isSome_iff_exists.mp (Option.isNone_eq_false_iff.mp hsome)
  refine ⟨r, ?_⟩
  unfold occupant?
  rw [Array.getElem?_eq_getElem (Nat.lt_trans hlt hframe), hr, Option.join_some]

/-- When no frame is free, every frame has an occupant. -/
theorem firstFree?_eq_none {t : FrameTable} (h : t.firstFree? = none) {frame : Nat}
    (hlt : frame < t.size) : ∃ r, t.occupant? frame = some r := by
  have hall := Array.findIdx?_eq_none_iff.mp h
  have hsome := hall t.occupants[frame] (Array.getElem_mem hlt)
  obtain ⟨r, hr⟩ := Option.isSome_iff_exists.mp (Option.isNone_eq_false_iff.mp hsome)
  refine ⟨r, ?_⟩
  unfold occupant?
  rw [Array.getElem?_eq_getElem hlt, hr, Option.join_some]

/-- A frame that is released when none was free is the only one that is. -/
theorem firstFree?_of_release? {t t' : FrameTable} {frame : Nat} (hfull : t.firstFree? = none)
    (h : t.release? frame = some t') : t'.firstFree? = some frame := by
  obtain ⟨hlt, hsize, hocc⟩ := release?_spec h
  cases hfree : t'.firstFree? with
  | none =>
    obtain ⟨r, hr⟩ := firstFree?_eq_none hfree (hsize.symm ▸ hlt)
    rw [hocc, if_pos rfl] at hr
    simp at hr
  | some g =>
    obtain ⟨hg, hnone⟩ := firstFree?_eq_some hfree
    by_cases hne : g = frame
    · rw [hne]
    · obtain ⟨r, hr⟩ := firstFree?_eq_none hfull (hsize ▸ hg)
      rw [hocc, if_neg hne, hr] at hnone
      simp at hnone

/-! Claiming a frame puts one more in use, and releasing one in use puts one less. -/

/-- Claiming a frame puts one more in use. -/
theorem inUse_claim? {t t' : FrameTable} {frame : Nat} {r : EntryRef}
    (h : t.claim? frame r = some t') : t'.inUse = t.inUse + 1 := by
  unfold claim? at h
  split at h
  next hf =>
    obtain ⟨hlt, hval⟩ := Array.getElem?_eq_some_iff.mp hf
    simp only [Option.some.injEq] at h
    subst h
    unfold inUse
    rw [Array.setIfInBounds_def, dif_pos hlt, Array.countP_set hlt, hval]
    simp
  next => exact absurd h (by simp)

/-- Releasing one takes it out of use. -/
theorem inUse_release? {t t' : FrameTable} {frame : Nat} {r : EntryRef}
    (h : t.release? frame = some t') (hocc : t.occupant? frame = some r) :
    t'.inUse + 1 = t.inUse := by
  unfold release? at h
  split at h
  next hlt =>
    have hval : t.occupants[frame] = some r := by
      unfold occupant? at hocc
      rw [Array.getElem?_eq_getElem hlt, Option.join_some] at hocc
      exact hocc
    have hpos : 0 < t.occupants.countP (·.isSome) :=
      Array.countP_pos_iff.mpr ⟨_, Array.getElem_mem hlt, by rw [hval]; rfl⟩
    simp only [Option.some.injEq] at h
    subst h
    unfold inUse
    rw [Array.setIfInBounds_def, dif_pos hlt, Array.countP_set hlt, hval]
    simp only [Option.isSome_some, if_true, Option.isSome_none, Bool.false_eq_true, if_false]
    omega
  next => exact absurd h (by simp)

/-- The frames in use are those with an occupant. -/
theorem inUse_eq (t : FrameTable) :
    t.inUse = (List.range t.size).countP fun frame => (t.occupant? frame).isSome := by
  have hlist : t.occupants.toList = (List.range t.size).map t.occupant? := by
    refine List.ext_getElem (by simp [size]) fun frame hlt hlt' => ?_
    rw [List.getElem_map, List.getElem_range, occupant?, ← Array.getElem?_toList,
      List.getElem?_eq_getElem hlt, Option.join_some]
  unfold inUse
  rw [← Array.countP_toList, hlist, List.countP_map]
  rfl

end FrameTable

namespace Memory

@[simp] theorem frames_zeroed (n : Nat) : (zeroed n).frames = n := by
  simp [frames, zeroed]

/-- Every frame that exists can be read. -/
theorem page?_isSome {m : Memory} {frame : Nat} (h : frame < m.frames) :
    ∃ page, m.page? frame = some page :=
  ⟨_, Array.getElem?_eq_getElem h⟩

/-- Writing a frame changes that frame only. -/
theorem setPage?_spec {m m' : Memory} {frame : Nat} {page : Page}
    (h : m.setPage? frame page = some m') :
    frame < m.frames ∧ m'.frames = m.frames ∧
      ∀ g, m'.page? g = if g = frame then some page else m.page? g := by
  unfold setPage? at h
  split at h
  next hlt =>
    simp only [Option.some.injEq] at h
    subst h
    refine ⟨hlt, by simp [frames], fun g => ?_⟩
    unfold page?
    rw [Array.getElem?_setIfInBounds]
    by_cases hg : g = frame
    · subst hg
      rw [if_pos rfl, if_pos hlt, if_pos rfl]
    · rw [if_neg (fun e => hg e.symm), if_neg hg]
  next => exact absurd h (by simp)

theorem setPage?_isSome {m : Memory} {frame : Nat} (h : frame < m.frames) (page : Page) :
    ∃ m', m.setPage? frame page = some m' :=
  ⟨⟨m.pages.setIfInBounds frame page⟩, if_pos h⟩

/-! ## Bytes -/

theorem addressOf_add_div {frame offset : Nat} (h : offset < pageBytes) :
    (addressOf frame + offset) / pageBytes = frame := by
  unfold addressOf
  rw [Nat.add_comm, Nat.add_mul_div_right _ _ (by decide), Nat.div_eq_of_lt h, Nat.zero_add]

/-- A byte of a frame that exists is a byte of memory. -/
theorem addressOf_add_lt {frames frame offset : Nat} (hframe : frame < frames)
    (hoffset : offset < pageBytes) :
    addressOf frame + offset < frames * pageBytes := by
  have hle : (frame + 1) * pageBytes ≤ frames * pageBytes := Nat.mul_le_mul_right _ hframe
  unfold addressOf
  rw [Nat.add_mul, Nat.one_mul] at hle
  omega

/-- A place in a frame tells the offset. -/
theorem byteIndex_addressOf_add {frame offset : Nat} (h : offset < pageBytes) :
    (byteIndex (addressOf frame + offset)).val = offset := by
  show (frame * pageBytes + offset) % pageBytes = offset
  rw [Nat.add_comm, Nat.add_mul_mod_self_right, Nat.mod_eq_of_lt h]

/-- A physical address inside a frame reads a byte of that frame. -/
theorem read?_addressOf_add (m : Memory) (frame : Nat) {offset : Nat} (h : offset < pageBytes) :
    m.read? (addressOf frame + offset) = (m.page? frame).map (·[offset]) := by
  simp only [read?, page?, addressOf_add_div h, Fin.getElem_fin, byteIndex_addressOf_add h]

/-- Writing inside a frame that exists changes one byte of that frame. -/
theorem write?_addressOf_add {m : Memory} {frame : Nat} {page : Page}
    (hpage : m.page? frame = some page) {offset : Nat} (h : offset < pageBytes) (value : UInt8) :
    ∃ m', m.write? (addressOf frame + offset) value = some m' ∧ m'.frames = m.frames ∧
      ∀ g, m'.page? g = if g = frame then some (page.set offset value) else m.page? g := by
  obtain ⟨hlt, -⟩ := Array.getElem?_eq_some_iff.mp hpage
  simp only [write?, addressOf_add_div h, byteIndex_addressOf_add h]
  rw [if_pos hlt]
  refine ⟨_, rfl, by simp [frames], fun g => ?_⟩
  unfold page? at hpage ⊢
  rw [Array.getElem?_modify]
  by_cases hg : g = frame
  · subst hg
    rw [if_pos rfl, if_pos rfl, hpage]
    rfl
  · rw [if_neg (fun e => hg e.symm), if_neg hg]

/-- Writing a byte leaves the others alone. -/
theorem read?_of_write? {m m' : Memory} {place : Nat} {value : UInt8}
    (h : m.write? place value = some m') {other : Nat} (hne : other ≠ place) :
    m'.read? other = m.read? other := by
  unfold write? at h
  split at h
  next =>
    simp only [Option.some.injEq] at h
    subst h
    unfold read?
    rw [Array.getElem?_modify]
    split
    next hframe =>
      have hbyte : (byteIndex place).val ≠ (byteIndex other).val := by
        intro heq
        have hmod : place % pageBytes = other % pageBytes := heq
        have hplace := Nat.div_add_mod place pageBytes
        have hother := Nat.div_add_mod other pageBytes
        rw [hframe, hmod] at hplace
        exact hne (hother.symm.trans hplace)
      rw [Option.map_map]
      refine congrFun (congrArg Option.map (funext fun page => ?_)) _
      exact Vector.getElem_set_ne (byteIndex place).isLt (byteIndex other).isLt hbyte
    next => rfl
  next => simp at h

/-- Writing a byte changes no other frame. -/
theorem page?_of_write? {m m' : Memory} {frame offset : Nat} {value : UInt8}
    (h : m.write? (addressOf frame + offset) value = some m') (hoffset : offset < pageBytes)
    {g : Nat} (hne : g ≠ frame) : m'.page? g = m.page? g := by
  unfold write? at h
  rw [addressOf_add_div hoffset] at h
  split at h
  next =>
    simp only [Option.some.injEq] at h
    subst h
    unfold page?
    rw [Array.getElem?_modify, if_neg (Ne.symm hne)]
  next => simp at h

end Memory

end DemandPaging
