import NodeMcu.Rtc.Location

namespace NodeMcu.Rtc.Prepared

open NodeMcu.Lib.Run NodeMcu.Lib.Ring
open NodeMcu.Rtc.Fifo NodeMcu.Rtc.Words NodeMcu.Rtc.Slots NodeMcu.Rtc.Tags NodeMcu.Rtc.Location

/-! ## The call -/

/-- The arguments of a call: `storage_begin`, `storage_end` and `sensor_count`. -/
structure Region where
  storageBegin : Nat
  storageEnd : Nat
  sensorCount : Nat
  pos : 1 ≤ sensorCount
  few : sensorCount ≤ 16
  room : storageBegin + sensorCount < storageEnd
  fits : storageEnd ≤ 128

def Region.Inside (g : Region) (a : Nat) : Prop := g.storageBegin ≤ a ∧ a < g.storageEnd

/-- What a call makes of a memory. -/
def prepared (g : Region) (m : Nat → UInt32) (intervalUs : UInt32) : RtcMem :=
  rtcfifoPrepare intervalUs (UInt32.ofNat g.sensorCount) g.storageBegin g.storageEnd ⟨m, []⟩

theorem default_fits : 128 < 256 := by decide

theorem default_clear : 128 ≤ 15 ∨ 21 ≤ 32 := by decide

/-- The storage that a call uses first. -/
def Region.default (g : Region) : Storage where
  first := 32
  last := 128
  tagcount := g.sensorCount
  pos := g.pos
  few := g.few
  room := by have := g.few; omega
  fits := default_fits
  clear := default_clear

/-- The FIFO has the new location, and head and tail lie where the first storage begins. -/
structure Fresh (g : Region) (s : RtcMem) : Prop where
  magic : checkMagic s = true
  loc : s.mem 15 = location (UInt32.ofNat g.storageBegin) (UInt32.ofNat g.storageEnd)
    (UInt32.ofNat g.sensorCount)
  count : s.mem 16 = 0
  tail : (s.mem 17).toNat = 32 + g.sensorCount
  head : (s.mem 18).toNat = 32 + g.sensorCount
  cleared : ∀ a, 32 ≤ a → a < 32 + g.sensorCount → s.mem a = 0

theorem ofInt_natCast (n : Nat) : UInt32.ofInt (n : Int) = UInt32.ofNat n := by
  apply UInt32.toNat_inj.mp
  rw [UInt32.ofInt, UInt32.toNat_ofNat', UInt32.toNat_ofNat']
  omega

section Region

variable (g : Region) (m : Nat → UInt32) (intervalUs : UInt32)

/-- The FIFO in front of the search for its content. -/
def unset : RtcMem :=
  putLoc 32 128 (UInt32.ofNat g.sensorCount)
    (rtcMemWrite (rtcMemWrite (rtcMemWrite ⟨m, []⟩ samplesPerBootPos 0) alignmentPos intervalUs)
      samplesToTakePos 0)

theorem prepared_eq : prepared g m intervalUs =
    putLoc (UInt32.ofNat g.storageBegin) (UInt32.ofNat g.storageEnd) (UInt32.ofNat g.sensorCount)
      (setMagic (clearContent (unset g m intervalUs))) := by
  have hpos := g.pos
  have hfew := g.few
  have hcount : UInt32.ofNat g.sensorCount ≠ 0 := by
    intro h0
    have := congrArg UInt32.toNat h0
    rw [UInt32.toNat_ofNat'] at this
    change g.sensorCount % 2 ^ 32 = 0 at this
    omega
  rw [prepared, rtcfifoPrepare, if_pos ⟨by omega, by omega⟩, ofInt_natCast, ofInt_natCast, prepare,
    initDefault, if_neg hcount]
  rfl

theorem unset_located : Located g.default (unset g m intervalUs) := rfl

theorem prepared_mem {a : Nat} (h10 : a ≠ 10) (h15 : a ≠ 15) :
    (prepared g m intervalUs).mem a = (clearContent (unset g m intervalUs)).mem a := by
  rw [prepared_eq]
  change Function.update (Function.update _ 10 _) 15 _ a = _
  rw [Function.update_of_ne h15, Function.update_of_ne h10]

/-- Behind the slots that are cleared the memory is as before. -/
theorem prepared_kept {a : Nat} (h : 32 + g.sensorCount ≤ a) :
    (prepared g m intervalUs).mem a = m a := by
  have hlo : g.default.lo = 32 + g.sensorCount := rfl
  rw [prepared_mem g m intervalUs (by omega) (by omega),
    clearContent_mem (unset_located g m intervalUs), if_neg (by omega), if_neg (by omega),
    if_neg (by omega)]
  change Function.update (Function.update (Function.update (Function.update m 14 _) 11 _) 13 _) 15
    _ a = m a
  rw [Function.update_of_ne (by omega), Function.update_of_ne (by omega),
    Function.update_of_ne (by omega), Function.update_of_ne (by omega)]

theorem fresh_prepared : Fresh g (prepared g m intervalUs) := by
  have hloc := unset_located g m intervalUs
  have hfew := g.few
  have hmem := clearContent_mem hloc
  have hfirst : (getFirst (unset g m intervalUs)).toNat = 32 + g.sensorCount := first_toNat hloc
  have hlo : g.default.lo = 32 + g.sensorCount := rfl
  have hprep : ∀ a, a ≠ 10 → a ≠ 15 →
      (prepared g m intervalUs).mem a = (clearContent (unset g m intervalUs)).mem a :=
    fun a h10 h15 => prepared_mem g m intervalUs h10 h15
  have hctrl : ∀ a, 16 ≤ a → a ≤ 20 → ¬(g.default.first ≤ a ∧ a < g.default.lo) := by
    intro a h1 h2 h3
    have : 32 ≤ a := h3.1
    omega
  have h16 := hmem 16
  have h17 := hmem 17
  have h18 := hmem 18
  rw [if_neg (hctrl _ (by decide) (by decide))] at h16 h17 h18
  refine ⟨by rw [prepared_eq]; rfl, by rw [prepared_eq]; rfl, ?_, ?_, ?_, fun a h1 h2 => ?_⟩
  · rw [hprep 16 (by decide) (by decide), h16]
    rfl
  · rw [hprep 17 (by decide) (by decide), h17]
    exact hfirst
  · rw [hprep 18 (by decide) (by decide), h18]
    exact hfirst
  · rw [hprep a (by omega) (by omega), hmem, if_pos ⟨h1, by omega⟩]

/-- The call itself touches the tags of the first storage, the first of them in any case. -/
theorem prepared_touched :
    (∀ a ∈ (prepared g m intervalUs).touched, 32 ≤ a ∧ a < 32 + g.sensorCount) ∧
      32 ∈ (prepared g m intervalUs).touched := by
  have hfew := g.few
  obtain ⟨n, hn⟩ : ∃ n, g.sensorCount = n + 1 :=
    Nat.exists_eq_succ_of_ne_zero (by have := g.pos; omega)
  let t := putHeadT 0 (putTailT 0 (putCount 0 (putHead (getFirst (unset g m intervalUs))
    (putTail (getFirst (unset g m intervalUs)) (unset g m intervalUs)))))
  have ht : Located g.default t := unset_located g m intervalUs
  have htouched : (prepared g m intervalUs).touched =
      (clearTagsLoop g.sensorCount (getTagpos t) t).touched := by
    rw [prepared_eq, ← show (getTagcount t).toNat = g.sensorCount from tagcount_toNat ht]
    rfl
  have hpos : (getTagpos t).toNat = 32 := tagpos_toNat ht
  have hc := clearTagsLoop_touches g.sensorCount (getTagpos t) t (by rw [hpos]; omega)
  rw [hpos] at hc
  rw [htouched]
  refine ⟨fun a ha => (hc a ha).resolve_left List.not_mem_nil, ?_⟩
  rw [hn, clearTagsLoop]
  refine clearTagsLoop_touched n _ _ ?_
  rw [← hpos]
  exact List.mem_append_right _ List.mem_cons_self

end Region

/-! ## Regions that keep the operations inside -/

section Inside

variable {g : Region} {s : RtcMem}

/-- The storage of a region behind the control block. -/
def Region.storage (g : Region) (h : 21 ≤ g.storageBegin) : Storage where
  first := g.storageBegin
  last := g.storageEnd
  tagcount := g.sensorCount
  pos := g.pos
  few := g.few
  room := g.room
  fits := by have := g.fits; omega
  clear := .inr h

theorem Fresh.roams (hf : Fresh g s) (h21 : 21 ≤ g.storageBegin)
    (hbegin : g.storageBegin ≤ 32 + g.sensorCount) (hend : 32 + g.sensorCount < g.storageEnd) :
    Roams (g.storage h21) s where
  loc := hf.loc
  head := by rw [hf.head]; exact ⟨hbegin, hend⟩
  tail := by rw [hf.tail]; exact ⟨hbegin, hend⟩

theorem Fresh.inRing (hf : Fresh g s) (h21 : 21 ≤ g.storageBegin) (h32 : g.storageBegin ≤ 32)
    (hend : 32 + g.sensorCount < g.storageEnd) : InRing (g.storage h21) s := by
  have hlo : (g.storage h21).lo = g.storageBegin + g.sensorCount := rfl
  have hlast : (g.storage h21).last = g.storageEnd := rfl
  have hlt : (s.mem 18).toNat < (g.storage h21).last := by rw [hf.head, hlast]; exact hend
  have h0 : (s.mem 16).toNat = 0 := by rw [hf.count]; rfl
  refine ⟨⟨hf.loc, by rw [hf.head, hlo]; omega, hlt, by rw [h0]; exact Nat.zero_le _, ?_⟩, ?_⟩
  · rw [h0, slot_zero hlt, hf.tail, hf.head]
  · rw [entries, h0]
    intro e he
    cases he

end Inside

/-! ## The first sample -/

theorem writeEntry_touched (x : Sample) (i : Nat) (deltat : Int) (head tail : UInt32)
    (s : RtcMem) : tail.toNat ∈ (writeEntry x i deltat head tail 0 s).touched := by
  rw [writeEntry, if_neg fun h => absurd h.2 (by decide)]
  exact List.mem_append_right _ List.mem_cons_self

/-- A search for what the first slot holds, or for some tag where it is free, ends there. -/
theorem findTagIndex_first {s : RtcMem} {n : Nat} (hn : (getTagcount s).toNat = n + 1) :
    let tag := if rtcMemRead s (getTagpos s) = 0 then 1 else rtcMemRead s (getTagpos s)
    (findTagIndex tag s).1 = some 0 := by
  intro tag
  have haddr : getTagpos s + UInt32.ofNat 0 = getTagpos s := UInt32.add_zero _
  rw [findTagIndex, hn, findTagLoop, haddr]
  simp only [tag]
  split_ifs <;> first | rfl | contradiction

theorem storeDelta_eq_zero {s : RtcMem} (x : Sample) (hc : s.mem 16 = 0) : storeDelta x s = 0 := by
  rw [storeDelta, searched, if_pos (show getCount s = 0 from hc)]
  change deltaT x.timestamp x.timestamp = 0
  simp [deltaT]

/-- The first sample is written where the tail is. -/
theorem put_touched {s : RtcMem} {n : Nat} (hmagic : checkMagic s = true) (hc : s.mem 16 = 0)
    (hn : (getTagcount s).toNat = n + 1) :
    ∃ x, (s.mem 17).toNat ∈ (apply s (.put x)).touched := by
  let x : Sample := ⟨0, 0, 0,
    if rtcMemRead s (getTagpos s) = 0 then 1 else rtcMemRead s (getTagpos s)⟩
  have hdelta : ¬storeDelta x s < 0 := by
    rw [storeDelta_eq_zero x hc]
    decide
  have hstore := storeSample_fits hdelta (findTagIndex_first hn)
  refine ⟨x, ?_⟩
  rw [show apply s (.put x) = storeSample x s by
      rw [apply, rtcfifoPut, checkFifoMagic, if_pos hmagic],
    hstore, getCount_eq, hc]
  exact writeEntry_touched x 0 _ _ _ _

/-! ## A tag over an entry -/

/-- A sample of time 0 and value 0 with a new name. -/
structure Stored (r : Storage) (s t : RtcMem) (index : Nat) (tag : UInt32) : Prop where
  magic : checkMagic t = checkMagic s
  loc : Located r t
  count : t.mem 16 = s.mem 16 + 1
  tail : (t.mem 17).toNat = next r.lo r.last (s.mem 17).toNat
  head : t.mem 18 = s.mem 18
  time : t.mem 19 = 0
  slots : ∀ i, r.Inside i → t.mem i =
    if i = (s.mem 17).toNat then constructEntry 0 (UInt32.ofNat index) 0 0
    else if i = r.first + index then tag else s.mem i

section NewTag

variable {r : Storage} {s : RtcMem} (hloc : Located r s) (tags : List UInt32) (tag : UInt32)
  (hfew : tags.length < r.tagcount)
  (hheld : ∀ k (h : k < tags.length), s.mem (r.first + k) = tags[k])
  (hfree : s.mem (r.first + tags.length) = 0) (hnamed : 0 ∉ tags) (htag : tag ≠ 0)
  (hnew : tag ∉ tags)

include hloc hfew hheld hfree hnamed htag hnew

/-- A new tag takes the first slot that is free. -/
theorem findTagIndex_new : (findTagIndex tag s).1 = some tags.length ∧
    (findTagIndex tag s).2.mem = Function.update s.mem (r.first + tags.length) tag := by
  have hfits := r.fits
  have hroom := r.room
  have hspec := findTagLoop_spec tag (getTagpos s) htag (getTagcount s).toNat 0 tags s
    (by rw [tagpos_toNat hloc, tagcount_toNat hloc]; omega)
    (by rw [tagcount_toNat hloc]; omega) (by rwa [tagpos_toNat hloc])
    (fun _ => by rwa [tagpos_toNat hloc]) hnamed
  rw [tagpos_toNat hloc, Nat.add_zero] at hspec
  simp only [if_neg hnew, tagcount_toNat hloc, if_pos hfew, Nat.zero_add] at hspec
  rw [findTagIndex, tagcount_toNat hloc]
  exact hspec

/-- The memory behind the search, but for the times. -/
theorem searched_new (x : Sample) (hx : x.tag = tag) {i : Nat} (h19 : i ≠ 19) (h20 : i ≠ 20) :
    (searched x s).mem i = if i = r.first + tags.length then tag else s.mem i := by
  obtain ⟨-, hmem⟩ := findTagIndex_new hloc tags tag hfew hheld hfree hnamed htag hnew
  subst hx
  simp only [searched]
  rw [← Function.update_apply, ← hmem]
  split_ifs
  · exact setTimes_mem _ _ h19 h20
  · rfl

theorem searched_time (h21 : 21 ≤ r.first) (x : Sample) (hx : x.tag = tag) (hzero : x.timestamp = 0)
    (htime : s.mem 16 = 0 ∨ s.mem 19 = 0) : (searched x s).mem 19 = 0 := by
  obtain ⟨-, hmem⟩ := findTagIndex_new hloc tags tag hfew hheld hfree hnamed htag hnew
  subst hx
  simp only [searched]
  by_cases hc : getCount s = 0
  · rw [if_pos hc, hzero]
    rfl
  · rw [if_neg hc, hmem, Function.update_of_ne (by omega)]
    exact htime.resolve_left hc

end NewTag

theorem storeSample_stored {r : Storage} {s : RtcMem} (h21 : 21 ≤ r.first) (hloc : Located r s)
    (htail : r.Inside (s.mem 17).toNat) (htime : s.mem 16 = 0 ∨ s.mem 19 = 0)
    (hroom : s.mem 16 = 0 ∨ s.mem 18 ≠ s.mem 17) (tags : List UInt32) (tag : UInt32)
    (hfew : tags.length < r.tagcount)
    (hheld : ∀ k (h : k < tags.length), s.mem (r.first + k) = tags[k])
    (hfree : s.mem (r.first + tags.length) = 0) (hnamed : 0 ∉ tags) (htag : tag ≠ 0)
    (hnew : tag ∉ tags) : Stored r s (storeSample ⟨0, 0, 0, tag⟩ s) tags.length tag := by
  let x : Sample := ⟨0, 0, 0, tag⟩
  have hfits := r.fits
  have hroom' := r.room
  obtain ⟨hi, -⟩ := findTagIndex_new hloc tags tag hfew hheld hfree hnamed htag hnew
  let u := searched x s
  have hother : ∀ i, i ≠ 19 → i ≠ 20 →
      u.mem i = if i = r.first + tags.length then tag else s.mem i := fun i h19 h20 =>
    searched_new hloc tags tag hfew hheld hfree hnamed htag hnew x rfl h19 h20
  have hu19 : u.mem 19 = 0 :=
    searched_time hloc tags tag hfew hheld hfree hnamed htag hnew h21 x rfl rfl htime
  have hdelta : storeDelta x s = 0 := by
    rw [storeDelta, getTailT_eq]
    change deltaT 0 (u.mem 19) = 0
    rw [hu19]
    decide
  have hctrl : ∀ i, i ≤ 18 → u.mem i = s.mem i := fun i h => by
    rw [hother i (by omega) (by omega), if_neg (by omega)]
  have hfull : ¬(getHead s = getTail s ∧ 0 < getCount s) := by
    rintro ⟨h1, h2⟩
    obtain h0 | hne := hroom
    · rw [getCount_eq, h0] at h2
      exact absurd h2 (by decide)
    · exact hne h1
  let entry := constructEntry 0 (UInt32.ofNat tags.length) 0 0
  let v := rtcMemWrite (u.touch (u.mem 17)) (u.mem 17) entry
  have hout : storeSample x s =
      incrementCount (putTailT 0 (putTail (normaliseIndex v (u.mem 17 + 1)) v)) := by
    rw [storeSample_fits (by rw [hdelta]; decide) hi, hdelta, writeEntry, if_neg hfull, getTail_eq,
      ← hctrl 17 (by decide)]
    rfl
  have h17 := hctrl 17 (by decide)
  have hne := r.ne_control htail
  have hwrite : ∀ i, (storeSample x s).mem i = if i = 16 then s.mem 16 + 1 else if i = 19 then 0
      else if i = 17 then normaliseIndex v (s.mem 17 + 1)
      else if i = (s.mem 17).toNat then entry else u.mem i := by
    rw [hout, ← h17, ← hctrl 16 (by decide)]
    exact write_mem u (by rw [h17]; omega) entry 0
  have hkept : ∀ i, i ≤ 18 → i ≠ 16 → i ≠ 17 → (storeSample x s).mem i = s.mem i := by
    intro i h h16 h17
    have := htail.1
    rw [hwrite, if_neg h16, if_neg (by omega), if_neg h17, if_neg (by omega), hctrl i h]
  have hvloc : Located r v := by
    have h15 : v.mem 15 = u.mem 15 := Function.update_of_ne (by rw [h17]; omega) _ _
    exact h15.trans ((hctrl 15 (by decide)).trans hloc)
  refine ⟨?_, (hkept 15 (by decide) (by decide) (by decide)).trans hloc, hwrite 16, ?_,
    hkept 18 (by decide) (by decide) (by decide), hwrite 19, fun i hin => ?_⟩
  · change ((storeSample x s).mem 10 == fifoMagic) = (s.mem 10 == fifoMagic)
    rw [hkept 10 (by decide) (by decide) (by decide)]
  · rw [show (storeSample x s).mem 17 = normaliseIndex v (s.mem 17 + 1) from hwrite 17]
    exact normalise_next hvloc (s.mem 17) htail.2
  · have := hin.1
    change (storeSample x s).mem i = _
    rw [hwrite, if_neg (by omega), if_neg (by omega), if_neg (by omega),
      hother i (by omega) (by omega)]

/-- The tags 1, 2 and so on. -/
def names (t : Nat) : List UInt32 := (List.range t).map fun i => UInt32.ofNat (i + 1)

theorem names_length (t : Nat) : (names t).length = t := by
  rw [names, List.length_map, List.length_range]

theorem mem_names {t : Nat} (ht : t < 2 ^ 32) {tag : UInt32} :
    tag ∈ names t ↔ 1 ≤ tag.toNat ∧ tag.toNat ≤ t := by
  rw [names, List.mem_map]
  constructor
  · rintro ⟨i, hi, rfl⟩
    have := List.mem_range.mp hi
    rw [UInt32.toNat_ofNat']
    omega
  · rintro ⟨h1, h2⟩
    refine ⟨tag.toNat - 1, List.mem_range.mpr (by omega), ?_⟩
    rw [Nat.sub_add_cancel h1]
    exact UInt32.ofNat_toNat

/-- The first entry lies in a slot for a tag, which still looks free, and so many slots in front of
it are taken. -/
structure Crossed (r : Storage) (j t : Nat) (s : RtcMem) : Prop where
  magic : checkMagic s = true
  loc : Located r s
  count : 0 < (s.mem 16).toNat ∧ (s.mem 16).toNat ≤ t + 1
  head : (s.mem 18).toNat = r.first + j
  tail : r.first + j < (s.mem 17).toNat ∧ (s.mem 17).toNat < r.last
  time : s.mem 19 = 0
  held : ∀ i, i < t → s.mem (r.first + i) = UInt32.ofNat (i + 1)
  free : ∀ i, t ≤ i → i ≤ j → s.mem (r.first + i) = 0

section Crossed

variable {r : Storage} {j t : Nat} {s : RtcMem}

theorem Crossed.stored (h : Crossed r j t s) (h21 : 21 ≤ r.first) (hj : j < r.tagcount)
    (ht : t ≤ j) (tag : UInt32) (htag : t < tag.toNat) :
    Stored r s (storeSample ⟨0, 0, 0, tag⟩ s) t tag := by
  have hfew := r.few
  have hhead := h.head
  have htail := h.tail
  have hlen := names_length t
  have hs := storeSample_stored h21 h.loc ⟨by omega, h.tail.2⟩ (.inr h.time)
    (.inr fun heq => by rw [heq] at hhead; omega) (names t) tag (by omega)
    (fun k hk => by
      rw [h.held k (by omega)]
      simp [names])
    (by rw [hlen]; exact h.free t (Nat.le_refl _) ht)
    (fun h0 => absurd ((mem_names (by omega)).mp h0).1 (by decide))
    (fun h0 => by rw [h0] at htag; change t < 0 at htag; omega)
    (fun hm => by have := ((mem_names (by omega)).mp hm).2; omega)
  rwa [hlen] at hs

theorem Crossed.succ (h : Crossed r j t s) (h21 : 21 ≤ r.first) (hj : j < r.tagcount)
    (ht : t < j) : Crossed r j (t + 1) (storeSample ⟨0, 0, 0, UInt32.ofNat (t + 1)⟩ s) := by
  have hfew := r.few
  have hroom := r.room
  have htag : (UInt32.ofNat (t + 1)).toNat = t + 1 := by
    rw [UInt32.toNat_ofNat']
    omega
  obtain ⟨hmagic, hloc, hcount, htail, hhead, htime, hslots⟩ :=
    h.stored h21 hj ht.le (UInt32.ofNat (t + 1)) (by omega)
  have hc := h.count
  have ht17 := h.tail
  have hlo : r.lo = r.first + r.tagcount := rfl
  have h16 : (s.mem 16 + 1).toNat = (s.mem 16).toNat + 1 := add_ofNat_toNat _ 1 (by omega)
  refine ⟨hmagic.trans h.magic, hloc, by rw [hcount, h16]; omega, by rw [hhead]; exact h.head, ?_,
    htime, fun i hi => ?_, fun i hi hij => ?_⟩
  · rw [htail, next]
    split_ifs
    · omega
    · omega
  · rw [hslots _ ⟨by omega, by omega⟩, if_neg (by omega)]
    by_cases hit : i = t
    · rw [if_pos (by omega), hit]
    · rw [if_neg (by omega), h.held i (by omega)]
  · rw [hslots _ ⟨by omega, by omega⟩, if_neg (by omega), if_neg (by omega),
      h.free i (by omega) hij]

theorem apply_put (hmagic : checkMagic s = true) (x : Sample) :
    apply s (.put x) = storeSample x s := by
  rw [apply, rtcfifoPut, checkFifoMagic, if_pos hmagic]

/-- As many new names as there are free slots in front of the entry, one name more that takes the
entry's slot, and then the entry is read. -/
def overwrite (t : Nat) : Nat → List Op
  | 0 => [.put ⟨0, 0, 0, 0xF0000000⟩, .pop]
  | k + 1 => .put ⟨0, 0, 0, UInt32.ofNat (t + 1)⟩ :: overwrite (t + 1) k

/-- The name is read as an entry with the tag index 15. -/
theorem overwrite_touched (h21 : 21 ≤ r.first) (hj : j < r.tagcount) (k : Nat)
    (h : Crossed r j t s) (hk : t + k = j) :
    r.first + 15 ∈ (run apply s (overwrite t k)).touched := by
  have hfew := r.few
  induction k generalizing t s with
  | succ k ih =>
    rw [overwrite, run_cons, apply_put h.magic]
    exact ih (h.succ h21 hj (by omega)) (by omega)
  | zero =>
    obtain rfl : t = j := hk
    have hroom := r.room
    have htail := h.tail
    obtain ⟨hmagic, hloc, hcount, -, hhead, -, hslots⟩ :=
      h.stored h21 hj (Nat.le_refl t) 0xF0000000 (by change t < 4026531840; omega)
    let u := storeSample ⟨0, 0, 0, 0xF0000000⟩ s
    have hc : u.mem 16 ≠ 0 := by
      intro h0
      have h16 : (s.mem 16 + 1).toNat = (s.mem 16).toNat + 1 :=
        add_ofNat_toNat _ 1 (by have := h.count; omega)
      rw [← hcount, h0] at h16
      change 0 = _ at h16
      omega
    have hentry : rtcMemRead u (getHead u) = 0xF0000000 := by
      rw [rtcMemRead, getHead_eq, hhead, h.head, hslots _ ⟨by omega, by omega⟩,
        if_neg (by omega), if_pos rfl]
    have hslot : (tagSlot u (rtcMemRead u (getHead u))).toNat = r.first + 15 := by
      rw [tagSlot_toNat hloc, hentry]
      rfl
    have hpop : apply u .pop = (popSample u).2 := by
      rw [apply, rtcfifoPop, checkFifoMagic, if_pos (hmagic.trans h.magic)]
    rw [overwrite, run_cons, run_cons, run_nil, apply_put h.magic, hpop, popSample,
      if_neg (show getCount u ≠ 0 from hc), ← hslot]
    exact List.mem_append_right _ List.mem_cons_self

end Crossed

/-- The first sample where head and tail lie among the slots for tags. -/
theorem Fresh.crossed {g : Region} {s : RtcMem} (hf : Fresh g s) (h32 : 32 < g.storageBegin)
    (hbegin : g.storageBegin ≤ 32 + g.sensorCount) (hfree : s.mem (32 + g.sensorCount) = 0) :
    let j := 32 + g.sensorCount - g.storageBegin
    Crossed (g.storage (by omega)) j (min 1 j) (storeSample ⟨0, 0, 0, 1⟩ s) := by
  intro j
  have hpos := g.pos
  have hroom := g.room
  have hfits := g.fits
  let r := g.storage (by omega)
  have hfirst : r.first = g.storageBegin := rfl
  have hlast : r.last = g.storageEnd := rfl
  have hlo : r.lo = g.storageBegin + g.sensorCount := rfl
  have hzero : s.mem r.first = 0 := by
    by_cases hb : g.storageBegin = 32 + g.sensorCount
    · rw [hfirst, hb, hfree]
    · exact hf.cleared _ (by omega) (by omega)
  have htail := hf.tail
  obtain ⟨hmagic, hloc, hcount, htail', hhead, htime, hslots⟩ := storeSample_stored (r := r)
    (by omega) hf.loc ⟨by omega, by omega⟩ (.inl hf.count) (.inl hf.count) [] 1 hpos
    (fun k hk => nomatch hk) hzero List.not_mem_nil (by decide) List.not_mem_nil
  change Crossed r j (min 1 j) _
  refine ⟨hmagic.trans hf.magic, hloc, ?_, ?_, ?_, htime, fun i hi => ?_, fun i hi hij => ?_⟩
  · rw [hcount, hf.count]
    change 0 < 1 ∧ 1 ≤ _
    omega
  · rw [hhead, hf.head]
    omega
  · rw [htail', htail, next]
    split_ifs
    · omega
    · omega
  · have hj : 0 < j := by omega
    obtain rfl : i = 0 := by omega
    rw [hslots _ ⟨by omega, by omega⟩, if_neg (by omega)]
    exact if_pos rfl
  · rw [hslots _ ⟨by omega, by omega⟩]
    by_cases hend : i = j
    · rw [if_pos (by omega)]
      decide
    · rw [if_neg (by omega), if_neg (by simp only [List.length_nil]; omega)]
      exact hf.cleared _ (by omega) (by omega)

/-! ## The regions that the operations stay in -/

/-- Only the operations behind the call count. -/
def OpsInside (g : Region) : Prop :=
  ∀ m intervalUs ops, ∀ a ∈ (run apply { prepared g m intervalUs with touched := [] } ops).touched,
    g.Inside a

/-- The call counts, too. -/
def CallInside (g : Region) : Prop :=
  ∀ m intervalUs ops, ∀ a ∈ (run apply (prepared g m intervalUs) ops).touched, g.Inside a

/-- The region lies behind the control block, head and tail lie in it, and they come into the ring
before an entry is read as something else, or an entry can name slots of the region only. -/
def Region.Keeps (g : Region) : Prop :=
  21 ≤ g.storageBegin ∧ g.storageBegin ≤ 32 + g.sensorCount ∧ 32 + g.sensorCount < g.storageEnd ∧
    (g.storageBegin ≤ 32 ∨ g.storageBegin + 16 ≤ g.storageEnd)

/-- Head and tail lie in the ring, behind the slots for tags. -/
def Region.Covers (g : Region) : Prop :=
  21 ≤ g.storageBegin ∧ g.storageBegin ≤ 32 ∧ 32 + g.sensorCount < g.storageEnd

instance (g : Region) : Decidable g.Keeps := instDecidableAnd

section

variable {g : Region} {s : RtcMem}

theorem Fresh.touches (hf : Fresh g s) (h : g.Keeps) (ops : List Op) :
    Touches g.Inside s (run apply s ops) := by
  obtain ⟨h21, hbegin, hend, h32 | h16⟩ := h
  · exact run_guarded (guard_inRing (g.storage h21)) (hf.inRing h21 h32 hend) ops
  · exact run_guarded (guard_roams (g.storage h21) h16) (hf.roams h21 hbegin hend) ops

theorem Fresh.tagcount (hf : Fresh g s) : (getTagcount s).toNat = g.sensorCount := by
  have hroom := g.room
  have hfits := g.fits
  have hfew := g.few
  exact getTagcount_toNat g.storageBegin g.storageEnd g.sensorCount s (by omega) (by omega)
    (by omega) hf.loc

/-- A first sample lies outside where the region does not reach to the tail. -/
theorem Fresh.put_touched (hf : Fresh g s) :
    ∃ x, 32 + g.sensorCount ∈ (apply s (.put x)).touched := by
  obtain ⟨n, hn⟩ : ∃ n, g.sensorCount = n + 1 :=
    Nat.exists_eq_succ_of_ne_zero (by have := g.pos; omega)
  rw [← hf.tail]
  exact Prepared.put_touched hf.magic hf.count (hf.tagcount.trans hn)

/-- Where head and tail lie among the tags, an entry can be read that names a slot 15 behind the
first. -/
theorem Fresh.overwritten (hf : Fresh g s) (h32 : 32 < g.storageBegin)
    (hbegin : g.storageBegin ≤ 32 + g.sensorCount) (hfree : s.mem (32 + g.sensorCount) = 0) :
    ∃ ops, g.storageBegin + 15 ∈ (run apply s ops).touched := by
  let j := 32 + g.sensorCount - g.storageBegin
  refine ⟨.put ⟨0, 0, 0, 1⟩ :: overwrite (min 1 j) (j - min 1 j), ?_⟩
  rw [run_cons, apply_put hf.magic]
  exact overwrite_touched (r := g.storage (by omega)) (show 21 ≤ g.storageBegin by omega)
    (show j < g.sensorCount by omega) (j - min 1 j) (hf.crossed h32 hbegin hfree) (by omega)

end

/-- In a region that keeps the operations inside, every run does stay inside; behind the control
block there are no others. -/
theorem inside_of_keeps (g : Region) :
    (g.Keeps → OpsInside g) ∧ (g.Covers → CallInside g) ∧
      (21 ≤ g.storageBegin → OpsInside g → g.Keeps) ∧
      (21 ≤ g.storageBegin → CallInside g → g.Covers) := by
  have hfresh : ∀ m intervalUs, Fresh g { prepared g m intervalUs with touched := [] } := by
    intro m intervalUs
    obtain ⟨h1, h2, h3, h4, h5, h6⟩ := fresh_prepared g m intervalUs
    exact ⟨h1, h2, h3, h4, h5, h6⟩
  refine ⟨fun hk m intervalUs ops a ha => ?_, fun ⟨h21, h32, hend⟩ m intervalUs ops a ha => ?_,
    fun h21 hin => ?_, fun h21 hin => ?_⟩
  · exact ((hfresh m intervalUs).touches hk ops a ha).resolve_left List.not_mem_nil
  · have hk : g.Keeps := ⟨h21, by omega, hend, .inl h32⟩
    refine ((fresh_prepared g m intervalUs).touches hk ops a ha).elim (fun hcall => ?_) id
    have := (prepared_touched g m intervalUs).1 a hcall
    exact ⟨by omega, by omega⟩
  · have hf := hfresh (fun _ => 0) 0
    obtain ⟨x, hx⟩ := hf.put_touched
    obtain ⟨hbegin, hend⟩ := hin (fun _ => 0) 0 [.put x] _ hx
    refine ⟨h21, hbegin, hend, ?_⟩
    by_contra hout
    obtain ⟨h32, h16⟩ := not_or.mp hout
    obtain ⟨ops, hops⟩ :=
      hf.overwritten (by omega) hbegin (prepared_kept g _ 0 (Nat.le_refl (32 + g.sensorCount)))
    have := (hin (fun _ => 0) 0 ops _ hops).2
    omega
  · obtain ⟨x, hx⟩ := (fresh_prepared g (fun _ => 0) 0).put_touched
    obtain ⟨-, hend⟩ := hin (fun _ => 0) 0 [.put x] _ hx
    have h32 := (hin (fun _ => 0) 0 [] 32 (prepared_touched g _ 0).2).1
    exact ⟨h21, h32, hend⟩

theorem sensors_pos : 1 ≤ 5 := by decide

theorem sensors_few : 5 ≤ 16 := by decide

/-- `rtcfifo.prepare({storage_begin=60, storage_end=100})`. -/
def farRegion : Region where
  storageBegin := 60
  storageEnd := 100
  sensorCount := 5
  pos := sensors_pos
  few := sensors_few
  room := by decide
  fits := by decide

/-- The first sample is written to slot 37. -/
theorem farRegion_not_inside : ¬OpsInside farRegion := by
  intro h
  have h37 : 37 ∈ (run apply { prepared farRegion (fun _ => 0) 0 with touched := [] }
      [.put ⟨0, 21, 0, 0x61⟩]).touched := by decide
  exact absurd (h (fun _ => 0) 0 [.put ⟨0, 21, 0, 0x61⟩] 37 h37).1 (by decide)

end NodeMcu.Rtc.Prepared
