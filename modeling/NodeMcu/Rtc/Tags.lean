import NodeMcu.Rtc.Slots

namespace NodeMcu.Rtc.Tags

open NodeMcu.Rtc.Fifo NodeMcu.Rtc.Words NodeMcu.Rtc.Slots

theorem add_ofNat_toNat (x : UInt32) (n : Nat) (h : x.toNat + n < 2 ^ 32) :
    (x + UInt32.ofNat n).toNat = x.toNat + n := by
  rw [UInt32.toNat_add, UInt32.toNat_ofNat']
  omega

/-! ## Clearing -/

theorem clearTagsLoop_mem (n : Nat) (tagsAt : UInt32) (s : RtcMem) (h : tagsAt.toNat + n < 2 ^ 32)
    (i : Nat) : (clearTagsLoop n tagsAt s).mem i =
      if tagsAt.toNat ≤ i ∧ i < tagsAt.toNat + n then 0 else s.mem i := by
  induction n generalizing tagsAt s with
  | zero =>
    rw [clearTagsLoop, if_neg (by omega)]
  | succ n ih =>
    have h1 : (tagsAt + 1).toNat = tagsAt.toNat + 1 := add_ofNat_toNat tagsAt 1 (by omega)
    rw [clearTagsLoop, ih _ _ (by omega), h1, mem_write, mem_touch, Function.update_apply]
    split_ifs <;> first | rfl | omega

/-- A FIFO without entries and tags. -/
theorem clearContent_mem {r : Piece} {s : RtcMem} (h : Located r s) (i : Nat) :
    (clearContent s).mem i =
      if r.first ≤ i ∧ i < r.lo then 0
      else if i = 16 ∨ i = 19 ∨ i = 20 then 0
      else if i = 17 ∨ i = 18 then getFirst s
      else s.mem i := by
  have hroom := r.room
  have hfits := r.fits
  let t := putHeadT 0 (putTailT 0 (putCount 0 (putHead (getFirst s) (putTail (getFirst s) s))))
  have ht : Located r t := h
  have hlo : r.lo = r.first + r.tagcount := rfl
  change (clearTagsLoop (getTagcount t).toNat (getTagpos t) t).mem i = _
  rw [clearTagsLoop_mem _ _ _ (by rw [tagpos_toNat ht, tagcount_toNat ht]; omega),
    tagpos_toNat ht, tagcount_toNat ht, ← hlo]
  simp only [t, mem_putHeadT, mem_putTailT, mem_putCount, mem_putHead, mem_putTail,
    Function.update_apply]
  split_ifs <;> first | rfl | omega

theorem clearContent_placed {r : Piece} {s : RtcMem} (h : Located r s) :
    Placed r (clearContent s) ∧ entries r (clearContent s) = [] := by
  have hroom := r.room
  have hmem := clearContent_mem h
  have hctrl : ∀ i, 15 ≤ i → i ≤ 20 → ¬(r.first ≤ i ∧ i < r.lo) := by
    intro i h1 h2 h3
    have := r.ne_control (i := i) ⟨h3.1, by simp only [Piece.lo] at h3; omega⟩
    omega
  have h15 : (clearContent s).mem 15 = s.mem 15 := by
    rw [hmem, if_neg (hctrl 15 (by decide) (by decide))]
    rfl
  have h16 : (clearContent s).mem 16 = 0 := by
    rw [hmem, if_neg (hctrl 16 (by decide) (by decide))]
    rfl
  have h17 : (clearContent s).mem 17 = getFirst s := by
    rw [hmem, if_neg (hctrl 17 (by decide) (by decide))]
    rfl
  have h18 : (clearContent s).mem 18 = getFirst s := by
    rw [hmem, if_neg (hctrl 18 (by decide) (by decide))]
    rfl
  have hf := first_toNat h
  have hlt : r.lo < r.last := hroom
  refine ⟨⟨h15.trans h, by rw [h18, hf], by rwa [h18, hf],
    by rw [h16]; exact Nat.zero_le _, ?_⟩, ?_⟩
  · rw [h17, h18, h16, hf]
    exact (NodeMcu.Lib.Ring.slot_zero hlt).symm
  · rw [entries, h16]
    rfl

/-! ## The table of tags -/

/-- The slots for tags hold these tags, and are free behind them. -/
structure TagTable (r : Piece) (tags : List UInt32) (s : RtcMem) : Prop where
  few : tags.length ≤ r.tagcount
  held : ∀ i (h : i < tags.length), s.mem (r.first + i) = tags[i]
  free : ∀ i, tags.length ≤ i → i < r.tagcount → s.mem (r.first + i) = 0
  named : 0 ∉ tags

theorem TagTable.congr {r : Piece} {tags : List UInt32} {s t : RtcMem} (h : TagTable r tags s)
    (hmem : ∀ i, r.first ≤ i → i < r.lo → t.mem i = s.mem i) : TagTable r tags t := by
  obtain ⟨hfew, hheld, hfree, hnamed⟩ := h
  have hlo : r.lo = r.first + r.tagcount := rfl
  refine ⟨hfew, fun i hi => ?_, fun i hi hn => ?_, hnamed⟩
  · rw [hmem _ (by omega) (by omega)]
    exact hheld i hi
  · rw [hmem _ (by omega) (by omega)]
    exact hfree i hi hn

/-- The tags after a search: an unknown one is entered where there is a slot. -/
def addTag (tagcount : Nat) (tag : UInt32) (tags : List UInt32) : List UInt32 :=
  if tag ∈ tags ∨ tagcount ≤ tags.length then tags else tags ++ [tag]

/-- A search among the tags from position `i` on: it ends at the tag, else at the first free slot,
which it takes. -/
theorem findTagLoop_spec (tag tagsAt : UInt32) (htag : tag ≠ 0) (n i : Nat) (tags : List UInt32)
    (s : RtcMem) (hb : tagsAt.toNat + i + n < 2 ^ 32) (hn : tags.length ≤ n)
    (hheld : ∀ k (h : k < tags.length), s.mem (tagsAt.toNat + i + k) = tags[k])
    (hfree : tags.length < n → s.mem (tagsAt.toNat + i + tags.length) = 0) (hnamed : 0 ∉ tags) :
    let r := findTagLoop tag tagsAt n i s
    if tag ∈ tags then r.1 = some (i + tags.idxOf tag) ∧ r.2.mem = s.mem
    else if tags.length < n then r.1 = some (i + tags.length) ∧
      r.2.mem = Function.update s.mem (tagsAt.toNat + i + tags.length) tag
    else r.1 = none ∧ r.2.mem = s.mem := by
  induction n generalizing i tags s with
  | zero =>
    obtain rfl : tags = [] := List.length_eq_zero_iff.mp (by omega)
    exact ⟨rfl, rfl⟩
  | succ n ih =>
    have haddr : (tagsAt + UInt32.ofNat i).toNat = tagsAt.toNat + i :=
      add_ofNat_toNat tagsAt i (by omega)
    have hread : rtcMemRead s (tagsAt + UInt32.ofNat i) = s.mem (tagsAt.toNat + i) := by
      rw [rtcMemRead, haddr]
    simp only [findTagLoop, hread]
    cases tags with
    | nil =>
      have h0 : s.mem (tagsAt.toNat + i) = 0 := hfree (Nat.succ_pos n)
      rw [if_neg List.not_mem_nil, if_pos (by simp), h0, if_neg htag.symm, if_pos rfl]
      exact ⟨rfl, by rw [mem_write, mem_touch, haddr]; rfl⟩
    | cons u tags =>
      have hu : s.mem (tagsAt.toNat + i) = u := hheld 0 (by simp)
      rw [hu]
      by_cases hut : u = tag
      · rw [if_pos (by simp [hut]), if_pos hut]
        exact ⟨by simp [hut], rfl⟩
      have hu0 : u ≠ 0 := fun h0 => hnamed (by simp [h0])
      rw [if_neg hut, if_neg hu0]
      have hlen : (u :: tags).length = tags.length + 1 := rfl
      have h := ih (i + 1) tags (s.touch (tagsAt + UInt32.ofNat i)) (by omega) (by omega)
        (fun k hk => by
          have := hheld (k + 1) (by omega)
          rw [mem_touch]
          rw [show tagsAt.toNat + (i + 1) + k = tagsAt.toNat + i + (k + 1) by omega, this]
          rfl)
        (fun hlt => by
          rw [mem_touch, show tagsAt.toNat + (i + 1) + tags.length =
            tagsAt.toNat + i + (u :: tags).length by rw [hlen]; omega]
          exact hfree (by omega))
        (fun h0 => hnamed (List.mem_cons_of_mem _ h0))
      have hmem : tag ∈ u :: tags ↔ tag ∈ tags := by
        simp [List.mem_cons, Ne.symm hut]
      have hidx : (u :: tags).idxOf tag = tags.idxOf tag + 1 := by
        rw [List.idxOf_cons_ne _ hut]
      simp only [hmem, hidx, hlen, Nat.add_lt_add_iff_right] at h ⊢
      have e1 : ∀ k, i + 1 + k = i + (k + 1) := fun k => by omega
      have e2 : ∀ k, tagsAt.toNat + (i + 1) + k = tagsAt.toNat + i + (k + 1) := fun k => by omega
      simpa only [e1, e2, mem_touch] using h

/-- The search for a name. -/
structure Found (r : Piece) (tag : UInt32) (tags : List UInt32) (s : RtcMem)
    (found : Option Nat × RtcMem) : Prop where
  index : ∀ i, found.1 = some i →
    (addTag r.tagcount tag tags)[i]? = some tag
  none_iff : found.1 = none ↔ tag ∉ tags ∧ r.tagcount ≤ tags.length
  table : TagTable r (addTag r.tagcount tag tags) found.2
  same : ∀ i, i < r.first ∨ r.lo ≤ i → found.2.mem i = s.mem i

theorem findTagIndex_found {r : Piece} {tags : List UInt32} {s : RtcMem} (tag : UInt32)
    (htag : tag ≠ 0) (h : Located r s) (ht : TagTable r tags s) :
    Found r tag tags s (findTagIndex tag s) := by
  have hroom := r.room
  have hfits := r.fits
  have hlo : r.lo = r.first + r.tagcount := rfl
  obtain ⟨hfew, hheld, hfree, hnamed⟩ := ht
  have hspec := findTagLoop_spec tag (getTagpos s) htag (getTagcount s).toNat 0 tags s
    (by rw [tagpos_toNat h, tagcount_toNat h]; omega) (by rwa [tagcount_toNat h])
    (by rwa [tagpos_toNat h])
    (by rw [tagpos_toNat h, tagcount_toNat h]; exact fun hlt => hfree _ (Nat.le_refl _) hlt) hnamed
  rw [tagpos_toNat h, tagcount_toNat h, Nat.add_zero] at hspec
  simp only [Nat.zero_add] at hspec
  change Found r tag tags s (findTagLoop tag (getTagpos s) (getTagcount s).toNat 0 s)
  rw [tagcount_toNat h]
  generalize findTagLoop tag (getTagpos s) r.tagcount 0 s = found at hspec ⊢
  by_cases hmem : tag ∈ tags
  · rw [if_pos hmem] at hspec
    have hadd : addTag r.tagcount tag tags = tags := if_pos (.inl hmem)
    refine ⟨fun i hi => ?_, ?_, ?_, fun i _ => by rw [hspec.2]⟩
    · rw [hadd]
      obtain rfl := Option.some.inj (hspec.1.symm.trans hi)
      exact List.getElem?_idxOf hmem
    · rw [hspec.1]
      simp [hmem]
    · rw [hadd]
      exact ⟨hfew, by rwa [hspec.2], by rwa [hspec.2], hnamed⟩
  · rw [if_neg hmem] at hspec
    by_cases hlen : tags.length < r.tagcount
    · rw [if_pos hlen] at hspec
      have hadd : addTag r.tagcount tag tags = tags ++ [tag] := if_neg (by simp [hmem, hlen])
      refine ⟨fun i hi => ?_, ?_, ⟨?_, ?_, ?_, ?_⟩, fun i hi => ?_⟩
      · rw [hadd]
        obtain rfl := Option.some.inj (hspec.1.symm.trans hi)
        exact List.getElem?_concat_length
      · rw [hspec.1]
        simp [hlen]
      · rw [hadd, List.length_append]
        exact hlen
      · intro i hi
        simp only [hadd, List.length_append, List.length_singleton] at hi ⊢
        rw [hspec.2, Function.update_apply]
        by_cases hil : i = tags.length
        · rw [if_pos (by omega)]
          simp [hil]
        · rw [if_neg (by omega), hheld i (by omega), List.getElem_append_left (by omega)]
      · intro i hi hin
        rw [hadd, List.length_append, List.length_singleton] at hi
        rw [hspec.2, Function.update_of_ne (by omega)]
        exact hfree i (by omega) hin
      · rw [hadd]
        simp [hnamed, htag.symm]
      · rw [hspec.2, Function.update_of_ne (by omega)]
    · rw [if_neg hlen] at hspec
      have hadd : addTag r.tagcount tag tags = tags := if_pos (.inr (by omega))
      refine ⟨fun i hi => ?_, ?_, ?_, fun i _ => by rw [hspec.2]⟩
      · rw [hspec.1] at hi
        cases hi
      · rw [hspec.1]
        simp only [true_iff]
        exact ⟨hmem, by omega⟩
      · rw [hadd]
        exact ⟨hfew, by rwa [hspec.2], by rwa [hspec.2], hnamed⟩

/-! ## The parts of a store -/

def setTimes (time : UInt32) (s : RtcMem) : RtcMem := putTailT time (putHeadT time s)

theorem setTimes_mem (time : UInt32) (s : RtcMem) {i : Nat} (h19 : i ≠ 19) (h20 : i ≠ 20) :
    (setTimes time s).mem i = s.mem i := by
  rw [setTimes, mem_putTailT, mem_putHeadT, Function.update_of_ne h19, Function.update_of_ne h20]

/-- The FIFO between the search for the name and the entry. -/
def searched (x : Sample) (s : RtcMem) : RtcMem :=
  if getCount s = 0 then setTimes x.timestamp (findTagIndex x.tag s).2
  else (findTagIndex x.tag s).2

/-- The time since the last sample, as the store computes it. -/
def storeDelta (x : Sample) (s : RtcMem) : Int := deltaT x.timestamp (getTailT (searched x s))

/-- The FIFO of a sample that does not fit into the scheme. -/
def restarted (x : Sample) (s : RtcMem) : RtcMem :=
  setTimes x.timestamp (clearContent (searched x s))

theorem storeSample_fits {x : Sample} {s : RtcMem} {i : Nat} (hdelta : ¬storeDelta x s < 0)
    (hi : (findTagIndex x.tag s).1 = some i) : storeSample x s =
      writeEntry x i (storeDelta x s) (getHead s) (getTail s) (getCount s) (searched x s) := by
  have hmatch : (if storeDelta x s < 0 then none else (findTagIndex x.tag s).1) = some i := by
    rw [if_neg hdelta, hi]
  unfold storeSample
  dsimp only
  split
  · rename_i j hj
    cases hmatch.symm.trans hj
    rfl
  · rename_i hnone
    cases hmatch.symm.trans hnone

theorem storeSample_misfits {x : Sample} {s : RtcMem}
    (h : storeDelta x s < 0 ∨ (findTagIndex x.tag s).1 = none) : storeSample x s =
      match (findTagIndex x.tag (restarted x s)).1 with
      | none => (findTagIndex x.tag (restarted x s)).2
      | some i => writeEntry x i (storeDelta x s) (getHead (restarted x s))
          (getTail (restarted x s)) (getCount (restarted x s))
          (findTagIndex x.tag (restarted x s)).2 := by
  have hmatch : (if storeDelta x s < 0 then none else (findTagIndex x.tag s).1) = none := by
    split_ifs with hd
    · rfl
    · exact h.resolve_left hd
  unfold storeSample
  dsimp only
  split
  · rename_i j hj
    cases hmatch.symm.trans hj
  · rfl

end NodeMcu.Rtc.Tags
