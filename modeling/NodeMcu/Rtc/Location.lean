import NodeMcu.Lib.Run
import NodeMcu.Rtc.Tags

namespace NodeMcu.Rtc.Location

open NodeMcu.Lib.Run NodeMcu.Lib.Ring
open NodeMcu.Rtc.Fifo NodeMcu.Rtc.Words NodeMcu.Rtc.Slots NodeMcu.Rtc.Tags

/-! ## Slots that are touched -/

/-- Beside what was touched before, only such slots are touched. -/
def Touches (p : Nat → Prop) (s t : RtcMem) : Prop := ∀ a ∈ t.touched, a ∈ s.touched ∨ p a

theorem Touches.refl (p : Nat → Prop) (s : RtcMem) : Touches p s s := fun _ ha => .inl ha

theorem Touches.trans {p : Nat → Prop} {s t u : RtcMem} (h : Touches p s t)
    (h' : Touches p t u) : Touches p s u :=
  fun a ha => (h' a ha).elim (h a) .inr

theorem Touches.mono {p q : Nat → Prop} {s t : RtcMem} (h : Touches p s t)
    (hpq : ∀ a, p a → q a) : Touches q s t :=
  fun a ha => (h a ha).imp id (hpq a)

theorem touch_touches {p : Nat → Prop} (s : RtcMem) (addr : UInt32) (h : p addr.toNat) :
    Touches p s (s.touch addr) := by
  intro a ha
  obtain ha | ha := List.mem_append.mp ha
  · exact .inl ha
  · rw [List.mem_singleton.mp ha]
    exact .inr h

theorem clearTagsLoop_touched {a : Nat} (n : Nat) (tagsAt : UInt32) (s : RtcMem)
    (h : a ∈ s.touched) : a ∈ (clearTagsLoop n tagsAt s).touched := by
  induction n generalizing tagsAt s with
  | zero => exact h
  | succ n ih => exact ih _ _ (List.mem_append_left _ h)

theorem clearTagsLoop_touches (n : Nat) (tagsAt : UInt32) (s : RtcMem)
    (h : tagsAt.toNat + n < 2 ^ 32) :
    Touches (fun a => tagsAt.toNat ≤ a ∧ a < tagsAt.toNat + n) s (clearTagsLoop n tagsAt s) := by
  induction n generalizing tagsAt s with
  | zero => exact .refl _ s
  | succ n ih =>
    have h1 : (tagsAt + 1).toNat = tagsAt.toNat + 1 := add_ofNat_toNat tagsAt 1 (by omega)
    have hrest := ih (tagsAt + 1) (rtcMemWrite (s.touch tagsAt) tagsAt 0) (by omega)
    rw [h1] at hrest
    have hfirst : Touches (fun a => tagsAt.toNat ≤ a ∧ a < tagsAt.toNat + (n + 1)) s
        (rtcMemWrite (s.touch tagsAt) tagsAt 0) :=
      touch_touches s tagsAt ⟨Nat.le_refl _, by omega⟩
    exact hfirst.trans (hrest.mono fun a ha => ⟨by omega, by omega⟩)

/-- A search stays within the table, whatever the table holds. -/
theorem findTagLoop_frame (tag tagsAt : UInt32) (n i : Nat) (s : RtcMem)
    (h : tagsAt.toNat + i + n < 2 ^ 32) :
    let r := findTagLoop tag tagsAt n i s
    (∀ j, r.1 = some j → j < i + n) ∧
      Touches (fun a => tagsAt.toNat + i ≤ a ∧ a < tagsAt.toNat + i + n) s r.2 ∧
      ∀ a, ¬(tagsAt.toNat + i ≤ a ∧ a < tagsAt.toNat + i + n) → r.2.mem a = s.mem a := by
  induction n generalizing i s with
  | zero => exact ⟨fun j hj => (nomatch hj), .refl _ s, fun a _ => rfl⟩
  | succ n ih =>
    have haddr : (tagsAt + UInt32.ofNat i).toNat = tagsAt.toNat + i :=
      add_ofNat_toNat tagsAt i (by omega)
    have htouch : Touches (fun a => tagsAt.toNat + i ≤ a ∧ a < tagsAt.toNat + i + (n + 1)) s
        (s.touch (tagsAt + UInt32.ofNat i)) := touch_touches s _ ⟨by omega, by omega⟩
    simp only [findTagLoop]
    split_ifs
    · exact ⟨fun j hj => by obtain rfl := Option.some.inj hj; omega, htouch, fun a _ => rfl⟩
    · refine ⟨fun j hj => by obtain rfl := Option.some.inj hj; omega, htouch, fun a ha => ?_⟩
      rw [mem_write, haddr, Function.update_of_ne (by omega), mem_touch]
    · obtain ⟨h1, h2, h3⟩ := ih (i + 1) (s.touch (tagsAt + UInt32.ofNat i)) (by omega)
      exact ⟨fun j hj => by have := h1 j hj; omega,
        htouch.trans (h2.mono fun a ha => ⟨by omega, by omega⟩),
        fun a ha => h3 a (by omega)⟩

section Piece

variable {r : Piece} {s : RtcMem}

/-- A slot of the table. -/
def IsTag (r : Piece) (a : Nat) : Prop := r.first ≤ a ∧ a < r.lo

theorem inside_of_isTag {a : Nat} (h : IsTag r a) : r.Inside a := by
  have hroom := r.room
  have hlo : r.lo = r.first + r.tagcount := rfl
  exact ⟨h.1, by have := h.2; omega⟩

theorem findTagIndex_frame (tag : UInt32) (h : Located r s) :
    (∀ i, (findTagIndex tag s).1 = some i → i < r.tagcount) ∧
      Touches r.Inside s (findTagIndex tag s).2 ∧
      ∀ a, ¬IsTag r a → (findTagIndex tag s).2.mem a = s.mem a := by
  have hroom := r.room
  have hfits := r.fits
  have hfind : findTagIndex tag s = findTagLoop tag (getTagpos s) r.tagcount 0 s := by
    rw [findTagIndex, tagcount_toNat h]
  obtain ⟨h1, h2, h3⟩ := findTagLoop_frame tag (getTagpos s) r.tagcount 0 s
    (by rw [tagpos_toNat h]; omega)
  rw [tagpos_toNat h] at h2 h3
  rw [hfind]
  refine ⟨fun i hi => ?_, h2.mono fun a ha => inside_of_isTag ha, h3⟩
  have := h1 i hi
  omega

theorem clearContent_touches (h : Located r s) : Touches r.Inside s (clearContent s) := by
  have hroom := r.room
  have hfits := r.fits
  let t := putHeadT 0 (putTailT 0 (putCount 0 (putHead (getFirst s) (putTail (getFirst s) s))))
  have ht : Located r t := h
  have hclear : clearContent s = clearTagsLoop r.tagcount (getTagpos t) t := by
    rw [← tagcount_toNat ht]
    rfl
  have hc := clearTagsLoop_touches r.tagcount (getTagpos t) t (by rw [tagpos_toNat ht]; omega)
  rw [tagpos_toNat ht] at hc
  rw [hclear]
  exact hc.mono fun a ha => inside_of_isTag ha

end Piece

/-! ## What keeps the operations inside -/

/-- A condition on the FIFO that makes every operation touch slots of the storage only, and that
every operation keeps. -/
structure Guard (r : Piece) (p : RtcMem → Prop) : Prop where
  loc : ∀ s, p s → Located r s
  head : ∀ s, p s → r.Inside (s.mem 18).toNat
  tail : ∀ s, p s → r.Inside (s.mem 17).toNat
  tag : ∀ s, p s → s.mem 16 ≠ 0 →
    r.Inside (r.first + (getTagindex (s.mem (s.mem 18).toNat)).toNat)
  other : ∀ s t : RtcMem, p s →
    (∀ a, ¬IsTag r a → a ≠ 19 → a ≠ 20 → t.mem a = s.mem a) → p t
  pop : ∀ s, p s → s.mem 16 ≠ 0 → p (popSample s).2
  clear : ∀ s, p s → p (clearContent s)
  write : ∀ s x i deltat, p s → i < r.tagcount →
    p (writeEntry x i deltat (getHead s) (getTail s) (getCount s) s)

section Guarded

variable {r : Piece} {p : RtcMem → Prop} (hg : Guard r p) {s : RtcMem}
include hg

theorem popSample_guarded (h : p s) :
    p (popSample s).2 ∧ Touches r.Inside s (popSample s).2 := by
  by_cases hc : s.mem 16 = 0
  · rw [popSample, if_pos (show getCount s = 0 from hc)]
    exact ⟨h, .refl _ s⟩
  · refine ⟨hg.pop s h hc, ?_⟩
    have h1 : Touches r.Inside s (s.touch (getHead s)) := touch_touches s _ (hg.head s h)
    have h2 : Touches r.Inside (s.touch (getHead s)) ((s.touch (getHead s)).touch
        (tagSlot s (rtcMemRead s (getHead s)))) := by
      refine touch_touches _ _ ?_
      rw [tagSlot_toNat (hg.loc s h)]
      exact hg.tag s h hc
    rw [popSample, if_neg (show getCount s ≠ 0 from hc)]
    exact h1.trans h2

theorem pops_guarded (n : Nat) (h : p s) : p (pops n s) := by
  induction n generalizing s with
  | zero => exact h
  | succ n ih => exact ih (popSample_guarded hg h).1

theorem ready_pops (h : p s) (n i : Nat) (hn : n ≤ (s.mem 16).toNat) (hi : i < n) :
    Ready r (pops i s) := by
  refine ⟨fun h0 => ?_, hg.head _ (pops_guarded hg i h)⟩
  have hcount := pops_count i s
  rw [h0] at hcount
  change 0 = _ at hcount
  omega

/-- A peek gives what the pop behind as many others gives, and only reads. -/
theorem peekSample_pops (fromTop : UInt32) (h : p s) :
    (peekSample fromTop s).1 = (popSample (pops fromTop.toNat s)).1 ∧
      (peekSample fromTop s).2.mem = s.mem ∧ Touches r.Inside s (peekSample fromTop s).2 := by
  have hcount := pops_count fromTop.toNat s
  by_cases hc : getCount s ≤ fromTop
  · have hle : (s.mem 16).toNat ≤ fromTop.toNat := UInt32.le_iff_toNat_le.mp hc
    have h0 : (pops fromTop.toNat s).mem 16 = 0 :=
      UInt32.toNat_inj.mp (hcount.trans (Nat.sub_eq_zero_of_le hle))
    rw [peekSample, if_pos hc, popSample_empty h0]
    exact ⟨rfl, rfl, .refl _ s⟩
  have hlt : fromTop.toNat < (s.mem 16).toNat := by
    have : ¬(s.mem 16).toNat ≤ fromTop.toNat := fun hle => hc (UInt32.le_iff_toNat_le.mpr hle)
    omega
  have hleft : (pops fromTop.toNat s).mem 16 ≠ 0 := by
    intro h0
    rw [h0] at hcount
    change 0 = _ at hcount
    omega
  have hloop := peekLoop_pops (r := r) fromTop.toNat (getHead s)
    (getHeadT s + getDeltat (rtcMemRead s (getHead s))) (s.touch (getHead s)) s
    (fun i _ _ _ => rfl) rfl rfl
    (fun i hi => ready_pops hg h (fromTop.toNat + 1) i (by omega) (by omega))
  have hpeek : ∃ l : UInt32 × UInt32 × RtcMem,
      (l.1 = rtcMemRead (pops fromTop.toNat s) (getHead (pops fromTop.toNat s)) ∧
        l.2.1 = getHeadT (pops fromTop.toNat s) + getDeltat l.1 ∧ l.2.2.mem = s.mem ∧
        Touches r.Inside (s.touch (getHead s)) l.2.2) ∧
      peekSample fromTop s =
        (some (fillSample l.2.2 l.1 l.2.1), l.2.2.touch (tagSlot l.2.2 l.1)) :=
    ⟨_, hloop, by rw [peekSample, if_neg hc]; rfl⟩
  obtain ⟨l, ⟨hentry, htime, hmem, htouch⟩, heq⟩ := hpeek
  have hv := pops_guarded hg fromTop.toNat h
  have hloc : Located r l.2.2 := (congrFun hmem 15).trans (hg.loc s h)
  have htag : r.Inside (r.first + (getTagindex l.1).toNat) := by
    rw [hentry]
    exact hg.tag _ hv hleft
  have hctrl := r.ne_control htag
  rw [heq]
  refine ⟨?_, hmem, ((touch_touches s _ (hg.head s h)).trans htouch).trans
    (touch_touches _ _ (by rwa [tagSlot_toNat hloc]))⟩
  have hfill : rtcMemRead l.2.2 (tagSlot l.2.2 l.1) =
      rtcMemRead (pops fromTop.toNat s) (tagSlot (pops fromTop.toNat s) l.1) := by
    rw [rtcMemRead, rtcMemRead, tagSlot_toNat hloc, tagSlot_toNat (hg.loc _ hv), hmem,
      pops_mem _ s (by omega) (by omega) (by omega)]
  rw [popSample, if_neg (show getCount _ ≠ 0 from hleft)]
  simp only [← hentry, ← htime, fillSample, hfill]

/-- A drop leaves the memory as so many pops do, as far as there are entries. -/
theorem dropSamples_pops (fromTop : UInt32) (h : p s) :
    (dropSamples fromTop s).mem = (pops (min fromTop.toNat (s.mem 16).toNat) s).mem ∧
      Touches r.Inside s (dropSamples fromTop s) := by
  let n := if getCount s ≤ fromTop then getCount s else fromTop
  have hn : n.toNat = min fromTop.toNat (s.mem 16).toNat := by
    simp only [n, UInt32.le_iff_toNat_le, getCount_eq]
    split_ifs <;> omega
  have hmem : s.mem = (putHeadT (getHeadT s) (putHead (getHead s) s)).mem := by
    rw [mem_putHeadT, mem_putHead, getHead_eq, getHeadT_eq, Function.update_eq_self,
      Function.update_eq_self]
  have hd := dropLoop_pops (r := r) n.toNat (getHead s) (getHeadT s) s s hmem
    (fun i hi => ready_pops hg h n.toNat i (by omega) hi)
  rw [← hn]
  exact hd

theorem peekSample_guarded (fromTop : UInt32) (h : p s) :
    p (peekSample fromTop s).2 ∧ Touches r.Inside s (peekSample fromTop s).2 := by
  obtain ⟨-, hmem, htouch⟩ := peekSample_pops hg fromTop h
  exact ⟨hg.other s _ h fun a _ _ _ => congrFun hmem a, htouch⟩

theorem dropSamples_guarded (fromTop : UInt32) (h : p s) :
    p (dropSamples fromTop s) ∧ Touches r.Inside s (dropSamples fromTop s) := by
  obtain ⟨hd, ht⟩ := dropSamples_pops hg fromTop h
  exact ⟨hg.other _ _ (pops_guarded hg _ h) fun a _ _ _ => congrFun hd a, ht⟩

theorem writeEntry_guarded (x : Sample) (i : Nat) (deltat : Int) (h : p s) (hi : i < r.tagcount) :
    p (writeEntry x i deltat (getHead s) (getTail s) (getCount s) s) ∧
      Touches r.Inside s (writeEntry x i deltat (getHead s) (getTail s) (getCount s) s) := by
  refine ⟨hg.write s x i deltat h hi, ?_⟩
  rw [writeEntry]
  have htail : r.Inside (getTail s).toNat := hg.tail s h
  split_ifs
  · exact (popSample_guarded hg h).2.trans (touch_touches _ (getTail s) htail)
  · exact touch_touches s (getTail s) htail

/-- A search and the times do not change what places the FIFO. -/
theorem find_guarded (tag : UInt32) (h : p s) :
    p (findTagIndex tag s).2 ∧ Touches r.Inside s (findTagIndex tag s).2 ∧
      (∀ i, (findTagIndex tag s).1 = some i → i < r.tagcount) ∧
      ∀ a, 15 ≤ a → a ≤ 20 → (findTagIndex tag s).2.mem a = s.mem a := by
  obtain ⟨h1, h2, h3⟩ := findTagIndex_frame tag (hg.loc s h)
  refine ⟨hg.other s _ h fun a ha _ _ => h3 a ha, h2, h1, fun a ha ha' => h3 a fun ht => ?_⟩
  have := r.ne_control (inside_of_isTag ht)
  omega

theorem setTimes_guarded (t : UInt32) (h : p s) : p (setTimes t s) :=
  hg.other s _ h fun _ _ h19 h20 => setTimes_mem t s h19 h20

/-- The time is the last sample's, and an entry is written where the search found a slot. -/
theorem storeSample_guarded (x : Sample) (h : p s) :
    p (storeSample x s) ∧ Touches r.Inside s (storeSample x s) := by
  obtain ⟨hfound, htouch, hindex, hctrl⟩ := find_guarded hg x.tag h
  have hsearched : p (searched x s) ∧ Touches r.Inside s (searched x s) ∧
      ∀ a, 16 ≤ a → a ≤ 18 → (searched x s).mem a = s.mem a := by
    rw [searched]
    split_ifs
    · refine ⟨setTimes_guarded hg _ hfound, htouch, fun a h1 h2 => ?_⟩
      rw [setTimes_mem _ _ (by omega) (by omega)]
      exact hctrl a (by omega) (by omega)
    · exact ⟨hfound, htouch, fun a h1 h2 => hctrl a (by omega) (by omega)⟩
  obtain ⟨hpu, htu, hsame⟩ := hsearched
  by_cases hfits : ¬storeDelta x s < 0 ∧ ∃ i, (findTagIndex x.tag s).1 = some i
  · obtain ⟨hdelta, i, hi⟩ := hfits
    have hw := writeEntry_guarded hg x i (storeDelta x s) hpu (hindex i hi)
    rw [getHead_eq, getTail_eq, getCount_eq, hsame 16 (by decide) (by decide),
      hsame 17 (by decide) (by decide), hsame 18 (by decide) (by decide)] at hw
    rw [storeSample_fits hdelta hi]
    exact ⟨hw.1, htu.trans hw.2⟩
  · have hmisfit : storeDelta x s < 0 ∨ (findTagIndex x.tag s).1 = none := by
      rw [not_and_or, not_not] at hfits
      exact hfits.imp id fun hn => Option.eq_none_iff_forall_ne_some.mpr fun i hi => hn ⟨i, hi⟩
    have hv : p (restarted x s) := setTimes_guarded hg _ (hg.clear _ hpu)
    have htv : Touches r.Inside s (restarted x s) :=
      htu.trans (clearContent_touches (hg.loc _ hpu))
    obtain ⟨hfound', htouch', hindex', hctrl'⟩ := find_guarded hg x.tag hv
    rw [storeSample_misfits hmisfit]
    split
    · exact ⟨hfound', htv.trans htouch'⟩
    · rename_i i hi
      have hw := writeEntry_guarded hg x i (storeDelta x s) hfound' (hindex' i hi)
      rw [getHead_eq, getTail_eq, getCount_eq, hctrl' 16 (by decide) (by decide),
        hctrl' 17 (by decide) (by decide), hctrl' 18 (by decide) (by decide)] at hw
      exact ⟨hw.1, (htv.trans htouch').trans hw.2⟩

end Guarded

/-! ## Two such conditions -/

/-- The entries lie in the ring, and each of them names a slot of the table. -/
structure InRing (r : Piece) (s : RtcMem) : Prop where
  placed : Placed r s
  known : ∀ e ∈ entries r s, (getTagindex e).toNat < r.tagcount

theorem not_isTag_control {r : Piece} {a : Nat} (h1 : 15 ≤ a) (h2 : a ≤ 20) : ¬IsTag r a := by
  intro ht
  have := r.ne_control (inside_of_isTag ht)
  omega

theorem guard_inRing (r : Piece) : Guard r (InRing r) where
  loc _ h := h.placed.loc
  head _ h := h.placed.inside_head
  tail _ h := h.placed.inside_tail
  tag s h hc := by
    have hroom := r.room
    obtain ⟨e, hfst, hp⟩ := popSample_popped h.placed hc
    have he : e = s.mem (s.mem 18).toNat := by
      have hentries := hp.entries
      obtain ⟨n, hn⟩ : ∃ n, (s.mem 16).toNat = n + 1 :=
        Nat.exists_eq_succ_of_ne_zero fun h0 => hc (UInt32.toNat_inj.mp h0)
      have hcount := h.placed.count
      rw [entries, hn, contents_cons s.mem h.placed.le_head h.placed.head_lt (by omega)] at hentries
      exact (List.cons.inj hentries).1.symm
    have := h.known e (by rw [hp.entries]; exact List.mem_cons_self)
    rw [← he]
    exact ⟨by omega, by omega⟩
  other s t h hsame := by
    have hctrl : ∀ a, 15 ≤ a → a ≤ 18 → t.mem a = s.mem a := fun a h1 h2 =>
      hsame a (not_isTag_control h1 (by omega)) (by omega) (by omega)
    refine ⟨h.placed.congr (hctrl 15 (by decide) (by decide)) (hctrl 16 (by decide) (by decide))
      (hctrl 17 (by decide) (by decide)) (hctrl 18 (by decide) (by decide)), ?_⟩
    rw [entries_congr h.placed (fun a hlo hhi => ?_) (hctrl 16 (by decide) (by decide))
      (hctrl 18 (by decide) (by decide))]
    · exact h.known
    · have hlo' : r.lo = r.first + r.tagcount := rfl
      have := r.ne_control (i := a) ⟨by omega, hhi⟩
      exact hsame a (fun ht => by have := ht.2; omega) (by omega) (by omega)
  pop s h hc := by
    obtain ⟨e, -, hp⟩ := popSample_popped h.placed hc
    exact ⟨hp.placed, fun e' he' =>
      h.known e' (by rw [hp.entries]; exact List.mem_cons_of_mem e he')⟩
  clear s h := by
    obtain ⟨hplaced, hentries⟩ := clearContent_placed h.placed.loc
    exact ⟨hplaced, fun e he => by rw [hentries] at he; cases he⟩
  write s x i deltat h hi := by
    obtain ⟨u, hu, hp⟩ := writeEntry_pushed h.placed x i deltat
    have hknown : ∀ e ∈ entries r u, (getTagindex e).toNat < r.tagcount := by
      intro e he
      split_ifs at hu
      · obtain ⟨e', hpop⟩ := hu
        exact h.known e (by rw [hpop.entries]; exact List.mem_cons_of_mem e' he)
      · rw [hu] at he
        exact h.known e he
    refine ⟨hp.placed, fun e he => ?_⟩
    rw [hp.entries] at he
    obtain he | he := List.mem_append.mp he
    · exact hknown e he
    · have hroom := r.room
      have hfits := r.fits
      rw [List.mem_singleton.mp he, tagindex_constructEntry, UInt32.toNat_ofNat']
      omega

/-- Head and tail lie anywhere in the storage. -/
structure Roams (r : Piece) (s : RtcMem) : Prop where
  loc : Located r s
  head : r.Inside (s.mem 18).toNat
  tail : r.Inside (s.mem 17).toNat

theorem inside_normalise {r : Piece} {s : RtcMem} (h : Located r s) (i : UInt32)
    (hi : r.Inside i.toNat) : r.Inside (normaliseIndex s (i + 1)).toNat := by
  have hroom := r.room
  have hlo : r.lo = r.first + r.tagcount := rfl
  have h1 := hi.1
  have h2 := hi.2
  rw [normalise_next h i hi.2, next]
  split_ifs
  · exact ⟨by omega, by omega⟩
  · exact ⟨by omega, by omega⟩

/-- A storage with room for all tags that an entry can name. -/
theorem guard_roams (r : Piece) (h16 : r.first + 16 ≤ r.last) : Guard r (Roams r) where
  loc _ h := h.loc
  head _ h := h.head
  tail _ h := h.tail
  tag s h _ := by
    have := getTagindex_toNat (s.mem (s.mem 18).toNat)
    exact ⟨by omega, by omega⟩
  other s t h hsame := by
    have hctrl : ∀ a, 15 ≤ a → a ≤ 18 → t.mem a = s.mem a := fun a h1 h2 =>
      hsame a (not_isTag_control h1 (by omega)) (by omega) (by omega)
    exact ⟨(hctrl 15 (by decide) (by decide)).trans h.loc,
      by rw [hctrl 18 (by decide) (by decide)]; exact h.head,
      by rw [hctrl 17 (by decide) (by decide)]; exact h.tail⟩
  pop s h hc := by
    have hmem := popSample_mem s hc
    refine ⟨(hmem 15).trans h.loc, ?_, ?_⟩
    · rw [show (popSample s).2.mem 18 = normaliseIndex s (s.mem 18 + 1) from hmem 18]
      exact inside_normalise h.loc _ h.head
    · rw [show (popSample s).2.mem 17 = s.mem 17 from hmem 17]
      exact h.tail
  clear s h := by
    obtain ⟨hplaced, -⟩ := clearContent_placed h.loc
    exact ⟨hplaced.loc, hplaced.inside_head, hplaced.inside_tail⟩
  write s x i deltat h hi := by
    have hwrite : ∀ v : RtcMem, Roams r v → v.mem 17 = s.mem 17 → ∀ e time,
        let u := rtcMemWrite (v.touch (getTail s)) (getTail s) e
        Roams r
          (incrementCount (putTailT time (putTail (normaliseIndex u (getTail s + 1)) u))) := by
      intro v hv h17 e time u
      have hne := r.ne_control h.tail
      have hother : ∀ a, 15 ≤ a → a ≤ 20 → u.mem a = v.mem a := fun a h1 h2 =>
        Function.update_of_ne (by change a ≠ (s.mem 17).toNat; omega) _ _
      have hul : Located r u := (hother 15 (by decide) (by decide)).trans hv.loc
      refine ⟨hul, ?_, inside_normalise hul _ h.tail⟩
      change r.Inside (u.mem 18).toNat
      rw [hother 18 (by decide) (by decide)]
      exact hv.head
    rw [writeEntry]
    split_ifs with hfull
    · have hc : s.mem 16 ≠ 0 := by
        intro h0
        have := hfull.2
        rw [getCount_eq, h0] at this
        exact absurd this (by decide)
      have hmem := popSample_mem s hc
      have hv : Roams r (popSample s).2 := by
        refine ⟨(hmem 15).trans h.loc, ?_, ?_⟩
        · rw [show (popSample s).2.mem 18 = normaliseIndex s (s.mem 18 + 1) from hmem 18]
          exact inside_normalise h.loc _ h.head
        · rw [show (popSample s).2.mem 17 = s.mem 17 from hmem 17]
          exact h.tail
      exact hwrite _ hv (hmem 17) _ _
    · exact hwrite s h rfl _ _

/-! ## Runs -/

inductive Op
  | put (x : Sample)
  | pop
  | peek (offset : UInt32)
  | drop (num : UInt32)

def apply (s : RtcMem) : Op → RtcMem
  | .put x => (rtcfifoPut x s).2
  | .pop => (rtcfifoPop s).2
  | .peek offset => (rtcfifoPeek offset s).2
  | .drop num => (rtcfifoDrop num s).2

theorem apply_guarded {r : Piece} {p : RtcMem → Prop} (hg : Guard r p) {s : RtcMem} (h : p s)
    (op : Op) : p (apply s op) ∧ Touches r.Inside s (apply s op) := by
  have hcheck : ∀ f : RtcMem → Option Sample × RtcMem,
      p (f s).2 ∧ Touches r.Inside s (f s).2 →
      p (checkFifoMagic f s).2 ∧ Touches r.Inside s (checkFifoMagic f s).2 := by
    intro f hf
    rw [checkFifoMagic]
    split_ifs
    · exact hf
    · exact ⟨h, .refl _ s⟩
  cases op with
  | put x => exact hcheck _ (storeSample_guarded hg x h)
  | pop => exact hcheck _ (popSample_guarded hg h)
  | peek offset => exact hcheck _ (peekSample_guarded hg offset h)
  | drop num => exact hcheck _ (dropSamples_guarded hg num h)

theorem run_guarded {r : Piece} {p : RtcMem → Prop} (hg : Guard r p) {s : RtcMem} (h : p s)
    (ops : List Op) : Touches r.Inside s (run apply s ops) := by
  induction ops generalizing s with
  | nil => exact .refl _ s
  | cons op ops ih =>
    obtain ⟨hp, ht⟩ := apply_guarded hg h op
    exact ht.trans (ih hp)

end NodeMcu.Rtc.Location
