import NodeMcu.Lib.Run
import NodeMcu.Rtc.Tags

namespace NodeMcu.Rtc.Contents

open NodeMcu.Lib.Run NodeMcu.Lib.Ring
open NodeMcu.Rtc.Fifo NodeMcu.Rtc.Words NodeMcu.Rtc.Slots NodeMcu.Rtc.Tags

/-! ## What the FIFO is for -/

/-- The samples that are held, the oldest first, and the names in use. -/
structure Held where
  samples : List Sample
  tags : List UInt32

/-- A sample with as much of it as an entry keeps. -/
def reduced (x : Sample) : Sample := { x with value := x.value % 65536, decimals := x.decimals % 8 }

/-- The time since the last sample does not fit, or there is no slot for another name. -/
def Held.Restarts (r : Storage) (x : Sample) (a : Held) : Prop :=
  (∃ y ∈ a.samples.getLast?, Gap x.timestamp y.timestamp) ∨
    (x.tag ∉ a.tags ∧ r.tagcount ≤ a.tags.length)

instance (r : Storage) (x : Sample) (a : Held) : Decidable (a.Restarts r x) :=
  inferInstanceAs (Decidable (_ ∨ _))

def Held.store (r : Storage) (x : Sample) (a : Held) : Held :=
  if a.Restarts r x then ⟨[reduced x], [x.tag]⟩
  else
    { samples :=
        (if a.samples.length = r.last - r.lo then a.samples.tail else a.samples) ++ [reduced x]
      tags := addTag r.tagcount x.tag a.tags }

inductive Op
  | store (x : Sample) (named : x.tag ≠ 0)
  | pop
  | drop (fromTop : UInt32)

def Held.apply (r : Storage) (a : Held) : Op → Option Sample × Held
  | .store x _ => (none, a.store r x)
  | .pop => (a.samples.head?, { a with samples := a.samples.tail })
  | .drop fromTop => (none, { a with samples := a.samples.drop fromTop.toNat })

/-! ## What the FIFO does -/

def apply (s : RtcMem) : Op → Option Sample × RtcMem
  | .store x _ => (none, storeSample x s)
  | .pop => popSample s
  | .drop fromTop => (none, dropSamples fromTop s)

/-- The samples that so many pops give. -/
def popAll : Nat → RtcMem → List Sample
  | 0, _ => []
  | n + 1, s => (popSample s).1.toList ++ popAll n (popSample s).2

/-- The samples that a FIFO holds are those that it would give. -/
def held (s : RtcMem) : List Sample := popAll (getCount s).toNat s

/-- The FIFO beside the samples that it should hold. -/
def step (r : Storage) (x : RtcMem × Held) (op : Op) : RtcMem × Held :=
  ((apply x.1 op).2, (x.2.apply r op).2)

/-- An operation gives what it should, and leaves the FIFO with the samples that it should hold. -/
def Correct (r : Storage) (x : RtcMem × Held) (op : Op) : Prop :=
  (apply x.1 op).1 = (x.2.apply r op).1 ∧ held (apply x.1 op).2 = (x.2.apply r op).2.samples

/-- A restart for a name comes with no time behind the last sample, and there is none for a
time. -/
def Steady (r : Storage) (x : RtcMem × Held) : Op → Prop
  | .store y _ => x.2.Restarts r y → ∀ z ∈ x.2.samples.getLast?, z.timestamp = y.timestamp
  | _ => True

/-! ## Entries as samples -/

/-- The time behind some entries. -/
def timeAfter (t : UInt32) (es : List UInt32) : UInt32 := es.foldl (fun t e => t + getDeltat e) t

def decode (s : RtcMem) : UInt32 → List UInt32 → List Sample
  | _, [] => []
  | t, e :: es => fillSample s e (t + getDeltat e) :: decode s (t + getDeltat e) es

theorem decode_length (s : RtcMem) (t : UInt32) (es : List UInt32) :
    (decode s t es).length = es.length := by
  induction es generalizing t with
  | nil => rfl
  | cons e es ih => rw [decode, List.length_cons, List.length_cons, ih]

theorem decode_snoc (s : RtcMem) (t : UInt32) (es : List UInt32) (e : UInt32) :
    decode s t (es ++ [e]) = decode s t es ++ [fillSample s e (timeAfter t es + getDeltat e)] := by
  induction es generalizing t with
  | nil => rfl
  | cons e' es ih =>
    rw [List.cons_append, decode, decode, ih, List.cons_append]
    rfl

theorem timeAfter_snoc (t : UInt32) (es : List UInt32) (e : UInt32) :
    timeAfter t (es ++ [e]) = timeAfter t es + getDeltat e := by
  rw [timeAfter, List.foldl_append]
  rfl

theorem decode_congr {s s' : RtcMem} (t : UInt32) (es : List UInt32)
    (h : ∀ e ∈ es, ∀ t, fillSample s' e t = fillSample s e t) : decode s' t es = decode s t es := by
  induction es generalizing t with
  | nil => rfl
  | cons e es ih =>
    rw [decode, decode, h e List.mem_cons_self, ih]
    exact fun e' he' => h e' (List.mem_cons_of_mem e he')

/-- The last sample has the time behind the entries. -/
theorem getLast_decode (s : RtcMem) (t : UInt32) (es : List UInt32) (y : Sample)
    (h : y ∈ (decode s t es).getLast?) : y.timestamp = timeAfter t es := by
  induction es using List.reverseRecOn with
  | nil => cases h
  | append_singleton es e =>
    rw [decode_snoc, List.getLast?_concat, Option.mem_some_iff] at h
    rw [← h, timeAfter_snoc]
    rfl

theorem fillSample_eq {r : Storage} {s : RtcMem} (h : Located r s) (e t : UInt32) :
    fillSample s e t =
      ⟨t, getValue e, getDecimals e, s.mem (r.first + (getTagindex e).toNat)⟩ := by
  rw [fillSample, rtcMemRead, tagSlot_toNat h]

/-! ## The relation between the two -/

/-- The entries are the samples, and their names stand in the table. -/
structure Shows (r : Storage) (a : Held) (s : RtcMem) : Prop where
  placed : Placed r s
  table : TagTable r a.tags s
  known : ∀ e ∈ entries r s, (getTagindex e).toNat < a.tags.length
  samples : decode s (s.mem 20) (entries r s) = a.samples

/-- The time of the tail is that of the last sample, too. -/
structure Holds (r : Storage) (a : Held) (s : RtcMem) : Prop extends Shows r a s where
  time : s.mem 19 = timeAfter (s.mem 20) (entries r s)

theorem Shows.length {r : Storage} {a : Held} {s : RtcMem} (h : Shows r a s) :
    (entries r s).length = a.samples.length := by
  rw [← h.samples, decode_length]

/-- Samples keep their names with the table. -/
theorem decode_same {r : Storage} {tags : List UInt32} {s t : RtcMem} (hs : Located r s)
    (ht : Located r t) (htable : TagTable r tags s)
    (hmem : ∀ i, r.first ≤ i → i < r.lo → t.mem i = s.mem i) (time : UInt32) (es : List UInt32)
    (hknown : ∀ e ∈ es, (getTagindex e).toNat < tags.length) :
    decode t time es = decode s time es := by
  have hfew := htable.few
  have hlo : r.lo = r.first + r.tagcount := rfl
  refine decode_congr _ _ fun e he time => ?_
  have := hknown e he
  rw [fillSample_eq ht, fillSample_eq hs, hmem _ (by omega) (by omega)]

theorem popped_shows {r : Storage} {a : Held} {s t : RtcMem} {e : UInt32} (h : Shows r a s)
    (hp : Popped r s t e) :
    a.samples = fillSample s e (s.mem 20 + getDeltat e) :: a.samples.tail ∧
      Shows r { a with samples := a.samples.tail } t := by
  have hsamples := h.samples
  rw [hp.entries, decode] at hsamples
  have hknown : ∀ e' ∈ entries r t, (getTagindex e').toNat < a.tags.length :=
    fun e' he' => h.known e' (by rw [hp.entries]; exact List.mem_cons_of_mem e he')
  refine ⟨by rw [← hsamples]; rfl, hp.placed, h.table.congr hp.tags, hknown, ?_⟩
  rw [hp.headT, ← hsamples]
  exact decode_same h.placed.loc hp.placed.loc h.table hp.tags _ _ hknown

theorem popped_holds {r : Storage} {a : Held} {s t : RtcMem} {e : UInt32} (h : Holds r a s)
    (hp : Popped r s t e) : Holds r { a with samples := a.samples.tail } t := by
  refine ⟨(popped_shows h.toShows hp).2, ?_⟩
  rw [hp.headT, hp.same 19 (by decide) (by decide) (by decide), h.time, hp.entries]
  rfl

/-- The oldest sample is given, and no longer held. -/
theorem popSample_shows {r : Storage} {a : Held} {s : RtcMem} (h : Shows r a s) :
    (popSample s).1 = a.samples.head? ∧
      Shows r { a with samples := a.samples.tail } (popSample s).2 := by
  by_cases hc : s.mem 16 = 0
  · have hnil : a.samples = [] := by
      rw [← List.length_eq_zero_iff, ← h.length, entries_length, hc]
      rfl
    have hpop : popSample s = (none, s) := by
      rw [popSample, if_pos (show getCount s = 0 from hc)]
    rw [hpop, hnil]
    refine ⟨rfl, h.placed, h.table, h.known, ?_⟩
    rw [h.samples, hnil]
    rfl
  · obtain ⟨e, hfst, hp⟩ := popSample_popped h.placed hc
    obtain ⟨hcons, hshows⟩ := popped_shows h hp
    refine ⟨?_, hshows⟩
    rw [hfst, hcons]
    rfl

theorem popSample_holds {r : Storage} {a : Held} {s : RtcMem} (h : Holds r a s) :
    Holds r { a with samples := a.samples.tail } (popSample s).2 := by
  refine ⟨(popSample_shows h.toShows).2, ?_⟩
  by_cases hc : s.mem 16 = 0
  · rw [popSample, if_pos (show getCount s = 0 from hc)]
    exact h.time
  · obtain ⟨e, -, hp⟩ := popSample_popped h.placed hc
    exact (popped_holds h hp).time

theorem popAll_shows {r : Storage} {a : Held} {s : RtcMem} (h : Shows r a s) (n : Nat)
    (hn : n = a.samples.length) : popAll n s = a.samples := by
  induction n generalizing a s with
  | zero => exact (List.length_eq_zero_iff.mp hn.symm).symm
  | succ n ih =>
    obtain ⟨hfst, hp⟩ := popSample_shows h
    obtain ⟨y, ys, hys⟩ := List.exists_cons_of_length_eq_add_one hn.symm
    rw [popAll, hfst, ih hp (by simp only [List.length_tail]; omega), hys]
    rfl

/-- What the FIFO gives is what its entries show. -/
theorem held_eq {r : Storage} {a : Held} {s : RtcMem} (h : Shows r a s) : held s = a.samples := by
  refine popAll_shows h _ ?_
  rw [getCount_eq, ← entries_length r, h.length]

/-! ## Stores -/

theorem and_mod (x : UInt32) : x &&& 0xffff = x % 65536 ∧ x &&& 7 = x % 8 := by
  constructor
  · apply UInt32.toNat_inj.mp
    rw [and_toNat x 0xffff 16 rfl, UInt32.toNat_mod]
    rfl
  · apply UInt32.toNat_inj.mp
    rw [and_toNat x 7 3 rfl, UInt32.toNat_mod]
    rfl

/-- The entry of a sample shows the sample, with the time behind the last one and what the entry
keeps of the delay. -/
theorem writeEntry_shows {r : Storage} {a : Held} {s : RtcMem} (h : Holds r a s) (x : Sample)
    (tagindex : Nat) (deltat : Int) (htag : a.tags[tagindex]? = some x.tag) :
    let t := writeEntry x tagindex deltat (getHead s) (getTail s) (getCount s) s
    let time := s.mem 19 + (UInt32.ofInt deltat &&& 0x1ff)
    Shows r { a with
      samples := (if a.samples.length = r.last - r.lo then a.samples.tail else a.samples) ++
        [{ reduced x with timestamp := time }] } t ∧
      t.mem 19 = x.timestamp ∧ timeAfter (t.mem 20) (entries r t) = time := by
  intro t time
  obtain ⟨u, hu, hp⟩ := writeEntry_pushed h.placed x tagindex deltat
  rw [h.length] at hu
  let e := constructEntry x.value (UInt32.ofNat tagindex) x.decimals (UInt32.ofInt deltat)
  have hhold : Holds r { a with
      samples := if a.samples.length = r.last - r.lo then a.samples.tail else a.samples } u ∧
      u.mem 19 = s.mem 19 := by
    split_ifs at hu ⊢
    · obtain ⟨e', hpop⟩ := hu
      exact ⟨popped_holds h hpop, hpop.same 19 (by decide) (by decide) (by decide)⟩
    · rw [hu]
      exact ⟨h, rfl⟩
  obtain ⟨hhold, h19⟩ := hhold
  have hlt : tagindex < a.tags.length := (List.getElem?_eq_some_iff.mp htag).1
  have hfew := h.table.few
  have hr := r.few
  have hidx : (getTagindex e).toNat = tagindex := by
    rw [tagindex_constructEntry, UInt32.toNat_ofNat']
    omega
  have hdelta : getDeltat e = UInt32.ofInt deltat &&& 0x1ff := deltat_constructEntry _ _ _ _
  have hknown : ∀ e' ∈ entries r u ++ [e], (getTagindex e').toNat < a.tags.length := by
    intro e' he'
    obtain he' | he' := List.mem_append.mp he'
    · exact hhold.known e' he'
    · rw [List.mem_singleton.mp he', hidx]
      exact hlt
  have hafter : timeAfter (t.mem 20) (entries r t) = time := by
    rw [hp.entries, hp.headT, timeAfter_snoc, ← hhold.time, h19, hdelta]
  have hlo : r.lo = r.first + r.tagcount := rfl
  refine ⟨⟨hp.placed, hhold.table.congr hp.tags, ?_, ?_⟩, hp.tailT, hafter⟩
  · rw [hp.entries]
    exact hknown
  · rw [hp.headT, hp.entries, decode_same hhold.placed.loc hp.placed.loc hhold.table hp.tags _ _
      hknown, decode_snoc, hhold.samples, ← hhold.time, h19, hdelta]
    congr 2
    rw [fillSample_eq hhold.placed.loc, hidx, hhold.table.held tagindex hlt, reduced,
      value_constructEntry, decimals_constructEntry, (and_mod x.value).1, (and_mod x.decimals).2]
    congr 1
    exact (List.getElem?_eq_some_iff.mp htag).2

theorem addTag_getElem (n : Nat) (tag : UInt32) (tags : List UInt32) (i : Nat)
    (h : i < tags.length) :
    i < (addTag n tag tags).length ∧ (addTag n tag tags)[i]? = tags[i]? := by
  rw [addTag]
  split_ifs
  · exact ⟨h, rfl⟩
  · rw [List.length_append]
    exact ⟨by omega, List.getElem?_append_left h⟩

/-- A search for a name changes nothing but the table. -/
theorem found_holds {r : Storage} {a : Held} {s : RtcMem} (h : Holds r a s) {tag : UInt32}
    {found : Option Nat × RtcMem} (hf : Found r tag a.tags s found) :
    Holds r { a with tags := addTag r.tagcount tag a.tags } found.2 ∧
      ∀ i, 15 ≤ i → i ≤ 20 → found.2.mem i = s.mem i := by
  have hroom := r.room
  have hlo : r.lo = r.first + r.tagcount := rfl
  have hctrl : ∀ i, 15 ≤ i → i ≤ 20 → found.2.mem i = s.mem i := by
    intro i h1 h2
    refine hf.same i ?_
    by_contra hn
    have := r.ne_control (i := i) ⟨by omega, by omega⟩
    omega
  have hplaced := h.placed.congr (hctrl 15 (by decide) (by decide)) (hctrl 16 (by decide)
    (by decide)) (hctrl 17 (by decide) (by decide)) (hctrl 18 (by decide) (by decide))
  have hentries : entries r found.2 = entries r s :=
    entries_congr h.placed (fun i hi _ => hf.same i (.inr hi)) (hctrl 16 (by decide) (by decide))
      (hctrl 18 (by decide) (by decide))
  refine ⟨⟨⟨hplaced, hf.table, ?_, ?_⟩, ?_⟩, hctrl⟩
  · rw [hentries]
    exact fun e he => (addTag_getElem _ _ _ _ (h.known e he)).1
  · rw [hentries, hctrl 20 (by decide) (by decide), ← h.samples]
    refine decode_congr _ _ fun e he t => ?_
    obtain ⟨hlt, heq⟩ := addTag_getElem r.tagcount tag a.tags _ (h.known e he)
    rw [fillSample_eq hplaced.loc, fillSample_eq h.placed.loc, hf.table.held _ hlt,
      h.table.held _ (h.known e he)]
    congr 1
    rw [List.getElem?_eq_getElem hlt, List.getElem?_eq_getElem (h.known e he)] at heq
    exact Option.some.inj heq
  · rw [hentries, hctrl 19 (by decide) (by decide), hctrl 20 (by decide) (by decide)]
    exact h.time

/-- The first sample of an empty FIFO sets its time. -/
theorem setTimes_holds {r : Storage} {a : Held} {s : RtcMem} (h : Holds r a s)
    (hnil : a.samples = []) (time : UInt32) : Holds r a (setTimes time s) := by
  have hmem : ∀ i, i ≠ 19 → i ≠ 20 → (setTimes time s).mem i = s.mem i :=
    fun i h1 h2 => setTimes_mem time s h1 h2
  have hroom := r.room
  have hlo : r.lo = r.first + r.tagcount := rfl
  have hin : ∀ i, r.Inside i → (setTimes time s).mem i = s.mem i := by
    intro i hi
    have := r.ne_control hi
    exact hmem i (by omega) (by omega)
  have hplaced : Placed r (setTimes time s) := h.placed.congr (hmem 15 (by decide) (by decide))
    (hmem 16 (by decide) (by decide)) (hmem 17 (by decide) (by decide))
    (hmem 18 (by decide) (by decide))
  have hentries : entries r (setTimes time s) = [] := by
    rw [← List.length_eq_zero_iff, entries_length, hmem 16 (by decide) (by decide),
      ← entries_length r, h.length, hnil]
    rfl
  refine ⟨⟨hplaced, h.table.congr fun i h1 h2 => hin i ⟨h1, by omega⟩, ?_, ?_⟩, ?_⟩
  · rw [hentries]
    exact fun e he => nomatch he
  · rw [hentries, hnil]
    rfl
  · rw [hentries]
    rfl

theorem clearContent_holds {r : Storage} {s : RtcMem} (h : Located r s) :
    Holds r ⟨[], []⟩ (clearContent s) := by
  obtain ⟨hplaced, hentries⟩ := clearContent_placed h
  have hmem := clearContent_mem h
  have hroom := r.room
  have hlo : r.lo = r.first + r.tagcount := rfl
  have htime : (clearContent s).mem 19 = 0 ∧ (clearContent s).mem 20 = 0 := by
    rw [hmem, hmem]
    constructor <;> split_ifs <;> first | rfl | simp_all
  refine ⟨⟨hplaced, ⟨Nat.zero_le _, fun i hi => (nomatch hi), fun i _ hi => ?_, List.not_mem_nil⟩,
    ?_, ?_⟩, ?_⟩
  · rw [hmem, if_pos ⟨by omega, by omega⟩]
  · rw [hentries]
    exact fun e he => nomatch he
  · rw [hentries]
    rfl
  · rw [hentries, htime.1, htime.2]
    rfl

section Store

variable {r : Storage} {a : Held} {s : RtcMem} (x : Sample)

theorem searched_holds (h : Holds r a s) (hx : x.tag ≠ 0) :
    Holds r { a with tags := addTag r.tagcount x.tag a.tags } (searched x s) ∧
      (∀ i, 16 ≤ i → i ≤ 18 → (searched x s).mem i = s.mem i) ∧
      (a.samples = [] → (searched x s).mem 19 = x.timestamp) ∧
      ∀ y ∈ a.samples.getLast?, (searched x s).mem 19 = y.timestamp := by
  have hf := findTagIndex_found x.tag hx h.placed.loc h.table
  obtain ⟨hhold, hctrl⟩ := found_holds h hf
  have hnil : getCount s = 0 ↔ a.samples = [] := by
    rw [← List.length_eq_zero_iff, ← h.length, entries_length, getCount_eq, ← UInt32.toNat_inj]
    rfl
  rw [searched]
  by_cases hc : getCount s = 0
  · rw [if_pos hc]
    refine ⟨setTimes_holds hhold (hnil.mp hc) _, fun i h1 h2 => ?_, fun _ => rfl, fun y hy => ?_⟩
    · rw [setTimes_mem _ _ (by omega) (by omega)]
      exact hctrl i (by omega) (by omega)
    · rw [hnil.mp hc] at hy
      cases hy
  · rw [if_neg hc]
    refine ⟨hhold, fun i h1 h2 => hctrl i (by omega) (by omega),
      fun hn => (hc (hnil.mpr hn)).elim, fun y hy => ?_⟩
    rw [← hhold.samples] at hy
    rw [hhold.time, getLast_decode _ _ _ y hy]

theorem gap_iff (h : Holds r a s) (hx : x.tag ≠ 0) :
    Gap x.timestamp ((searched x s).mem 19) ↔
      ∃ y ∈ a.samples.getLast?, Gap x.timestamp y.timestamp := by
  obtain ⟨-, -, hnil, hlast⟩ := searched_holds x h hx
  cases hs : a.samples.getLast? with
  | none =>
    rw [hnil (List.getLast?_eq_none_iff.mp hs), Gap, UInt32.sub_self]
    refine ⟨fun h => absurd h (by decide), ?_⟩
    rintro ⟨y, hy, -⟩
    cases hy
  | some y =>
    rw [hlast y hs]
    refine ⟨fun hg => ⟨y, rfl, hg⟩, ?_⟩
    rintro ⟨z, hz, hg⟩
    rwa [Option.mem_some_iff.mp hz]

/-- Where the scheme has room for a sample, the sample is held behind the others. -/
theorem storeSample_holds (h : Holds r a s) (hx : x.tag ≠ 0) (hn : ¬a.Restarts r x) :
    Holds r (a.store r x) (storeSample x s) := by
  obtain ⟨hhold, hctrl, -, -⟩ := searched_holds x h hx
  have hf := findTagIndex_found x.tag hx h.placed.loc h.table
  have hgap : ¬Gap x.timestamp ((searched x s).mem 19) :=
    fun hg => hn (.inl ((gap_iff x h hx).mp hg))
  have hdelta : ¬storeDelta x s < 0 := fun hlt => hgap ((deltaT_neg _ _).mp hlt)
  obtain ⟨i, hi⟩ : ∃ i, (findTagIndex x.tag s).1 = some i := by
    refine Option.ne_none_iff_exists'.mp fun hnone => hn (.inr (hf.none_iff.mp hnone))
  obtain ⟨hshows, h19, hafter⟩ := writeEntry_shows hhold x i (storeDelta x s) (hf.index i hi)
  have htime : (searched x s).mem 19 + (UInt32.ofInt (storeDelta x s) &&& 0x1ff) =
      x.timestamp := by
    rw [storeDelta, getTailT_eq, kept_near hgap, UInt32.add_comm, UInt32.sub_add_cancel]
  have hstore : storeSample x s = writeEntry x i (storeDelta x s) (getHead (searched x s))
      (getTail (searched x s)) (getCount (searched x s)) (searched x s) := by
    rw [getHead_eq, getTail_eq, getCount_eq, hctrl 16 (by decide) (by decide),
      hctrl 17 (by decide) (by decide), hctrl 18 (by decide) (by decide)]
    exact storeSample_fits hdelta hi
  rw [htime] at hshows hafter
  rw [hstore, Held.store, if_neg hn]
  exact ⟨hshows, h19.trans hafter.symm⟩

/-- What the entry of a restart keeps of the time that it was computed with. -/
def staleDelta (x : Sample) (s : RtcMem) : UInt32 :=
  UInt32.ofInt (storeDelta x s) &&& 0x1ff

theorem staleDelta_eq_zero (h : Holds r a s) (hx : x.tag ≠ 0) :
    staleDelta x s = 0 ↔ ∀ z ∈ a.samples.getLast?, z.timestamp = x.timestamp := by
  obtain ⟨-, -, hnil, hlast⟩ := searched_holds x h hx
  have hzero : ∀ t : UInt32, staleDelta x s = 0 → (searched x s).mem 19 = t → t = x.timestamp := by
    intro t h0 ht
    rw [staleDelta, storeDelta, getTailT_eq, ht] at h0
    by_cases hg : Gap x.timestamp t
    · rw [kept_gap hg] at h0
      exact absurd h0 (by decide)
    · rw [kept_near hg] at h0
      have hback := UInt32.sub_add_cancel x.timestamp t
      rwa [h0, UInt32.zero_add] at hback
  have hsame : (searched x s).mem 19 = x.timestamp → staleDelta x s = 0 := by
    intro ht
    have hg : ¬Gap x.timestamp x.timestamp := by
      rw [Gap, UInt32.sub_self]
      decide
    rw [staleDelta, storeDelta, getTailT_eq, ht, kept_near hg, UInt32.sub_self]
  constructor
  · exact fun h0 z hz => hzero _ h0 (hlast z hz)
  · intro hall
    cases hs : a.samples.getLast? with
    | none => exact hsame (hnil (List.getLast?_eq_none_iff.mp hs))
    | some z => exact hsame ((hlast z hs).trans (hall z hs))

/-- After a restart only the new sample is held, with a time that the stale delay is added to. -/
theorem storeSample_restarts (h : Holds r a s) (hx : x.tag ≠ 0) (hr : a.Restarts r x) :
    Shows r ⟨[{ reduced x with timestamp := x.timestamp + staleDelta x s }], [x.tag]⟩
      (storeSample x s) ∧ (storeSample x s).mem 19 = x.timestamp ∧
      timeAfter ((storeSample x s).mem 20) (entries r (storeSample x s)) =
        x.timestamp + staleDelta x s := by
  obtain ⟨hhold, -, -, -⟩ := searched_holds x h hx
  have hf := findTagIndex_found x.tag hx h.placed.loc h.table
  have hmisfit : storeDelta x s < 0 ∨ (findTagIndex x.tag s).1 = none :=
    hr.imp (fun hg => (deltaT_neg _ _).mpr ((gap_iff x h hx).mpr hg)) hf.none_iff.mpr
  let u := restarted x s
  have hu : Holds r ⟨[], []⟩ u := setTimes_holds (clearContent_holds hhold.placed.loc) rfl _
  have hfu := findTagIndex_found x.tag hx hu.placed.loc hu.table
  have hpos := r.pos
  obtain ⟨i, hi⟩ : ∃ i, (findTagIndex x.tag u).1 = some i := by
    refine Option.ne_none_iff_exists'.mp fun hn => ?_
    have := (hfu.none_iff.mp hn).2
    simp only [List.length_nil] at this
    omega
  have hadd : addTag r.tagcount x.tag [] = [x.tag] := by
    rw [addTag, if_neg (by simp only [List.not_mem_nil, List.length_nil, false_or]; omega)]
    rfl
  obtain ⟨hfound, hctrl⟩ := found_holds hu hfu
  obtain ⟨hshows, h19, hafter⟩ := writeEntry_shows hfound x i (storeDelta x s) (hfu.index i hi)
  have hstore : storeSample x s = writeEntry x i (storeDelta x s)
      (getHead (findTagIndex x.tag u).2) (getTail (findTagIndex x.tag u).2)
      (getCount (findTagIndex x.tag u).2) (findTagIndex x.tag u).2 := by
    rw [getHead_eq, getTail_eq, getCount_eq, hctrl 16 (by decide) (by decide),
      hctrl 17 (by decide) (by decide), hctrl 18 (by decide) (by decide),
      storeSample_misfits hmisfit]
    split
    · rename_i hnone
      cases hnone.symm.trans hi
    · rename_i j hj
      cases hj.symm.trans hi
      rfl
  have h19u : (findTagIndex x.tag u).2.mem 19 = x.timestamp := hctrl 19 (by decide) (by decide)
  rw [hstore]
  simp only [h19u, hadd, List.tail_nil, ite_self, List.nil_append] at hshows hafter h19
  exact ⟨hshows, h19, hafter⟩

end Store

/-! ## Runs -/

section Runs

variable {r : Storage} {a : Held} {s : RtcMem}

theorem pops_holds (n : Nat) (h : Holds r a s) :
    Holds r { a with samples := a.samples.drop n } (pops n s) := by
  induction n generalizing a s with
  | zero => exact h
  | succ n ih =>
    have hp := ih (popSample_holds h)
    rwa [List.drop_tail] at hp

theorem Holds.congr {t : RtcMem} (h : Holds r a s) (hmem : t.mem = s.mem) : Holds r a t := by
  obtain ⟨m, l⟩ := s
  obtain ⟨m', l'⟩ := t
  cases hmem
  refine ⟨⟨⟨h.placed.loc, h.placed.le_head, h.placed.head_lt, h.placed.count, h.placed.tail⟩,
    h.table.congr fun _ _ _ => rfl, h.known, ?_⟩, h.time⟩
  rw [← h.samples]
  exact decode_congr _ _ fun _ _ _ => rfl

theorem dropSamples_holds (h : Holds r a s) (fromTop : UInt32) :
    Holds r { a with samples := a.samples.drop fromTop.toNat } (dropSamples fromTop s) := by
  have hcount : (getCount s).toNat = a.samples.length := by
    rw [getCount_eq, ← entries_length r, h.length]
  let n := if getCount s ≤ fromTop then getCount s else fromTop
  have hn : n.toNat ≤ a.samples.length ∧ a.samples.drop n.toNat = a.samples.drop fromTop.toNat := by
    simp only [n]
    by_cases hle : getCount s ≤ fromTop
    · have hle' := UInt32.le_iff_toNat_le.mp hle
      rw [if_pos hle]
      exact ⟨hcount.le, by rw [List.drop_eq_nil_of_le (by omega),
        List.drop_eq_nil_of_le (by omega)]⟩
    · have hle' : ¬(getCount s).toNat ≤ fromTop.toNat :=
        fun h => hle (UInt32.le_iff_toNat_le.mpr h)
      rw [if_neg hle]
      exact ⟨by omega, rfl⟩
  have hmem : s.mem = (putHeadT (getHeadT s) (putHead (getHead s) s)).mem := by
    rw [mem_putHeadT, mem_putHead, getHead_eq, getHeadT_eq, Function.update_eq_self,
      Function.update_eq_self]
  have hready : ∀ i, i < n.toNat → Ready r (pops i s) := by
    intro i hi
    have hp := pops_holds i h
    have hlen := hp.length
    have hinside := r.inside_slot hp.placed.le_head hp.placed.head_lt (Nat.zero_le _)
    rw [slot_zero hp.placed.head_lt] at hinside
    refine ⟨fun h0 => ?_, hinside⟩
    rw [entries_length, h0, List.length_drop] at hlen
    change 0 = a.samples.length - i at hlen
    omega
  have hd := (dropLoop_pops n.toNat (getHead s) (getHeadT s) s s hmem hready).1
  have hp := pops_holds n.toNat h
  rw [hn.2] at hp
  exact hp.congr hd

theorem init_holds (r : Storage) (s : RtcMem) :
    Holds r ⟨[], []⟩
      (init (UInt32.ofNat r.first) (UInt32.ofNat r.last) (UInt32.ofNat r.tagcount) s) :=
  clearContent_holds rfl

/-- An operation keeps the relation, unless a restart leaves a stale delay. -/
theorem step_holds (h : Holds r a s) (op : Op) (hs : Steady r (s, a) op) :
    Holds r (step r (s, a) op).2 (step r (s, a) op).1 := by
  cases op with
  | pop => exact popSample_holds h
  | drop fromTop => exact dropSamples_holds h fromTop
  | store x hx =>
    by_cases hr : a.Restarts r x
    · have h0 := (staleDelta_eq_zero x h hx).mpr (hs hr)
      obtain ⟨hshows, h19, hafter⟩ := storeSample_restarts x h hx hr
      rw [h0, UInt32.add_zero] at hshows hafter
      simp only [step, apply, Held.apply, Held.store, if_pos hr]
      exact ⟨hshows, h19.trans hafter.symm⟩
    · exact storeSample_holds x h hx hr

theorem correct_iff (h : Holds r a s) (op : Op) : Correct r (s, a) op ↔ Steady r (s, a) op := by
  constructor
  · intro hcorrect
    cases op with
    | pop => trivial
    | drop fromTop => trivial
    | store x hx =>
      intro hr
      obtain ⟨hshows, -⟩ := storeSample_restarts x h hx hr
      have hheld := hcorrect.2
      simp only [apply, Held.apply, Held.store, if_pos hr, held_eq hshows, List.cons.injEq,
        and_true] at hheld
      refine (staleDelta_eq_zero x h hx).mp ?_
      have ht : x.timestamp + staleDelta x s = x.timestamp := congrArg Sample.timestamp hheld
      have hback := UInt32.add_sub_cancel (staleDelta x s) x.timestamp
      rw [UInt32.add_comm, ht, UInt32.sub_self] at hback
      exact hback.symm
  · intro hs
    refine ⟨?_, held_eq (step_holds h op hs).toShows⟩
    cases op with
    | pop => exact (popSample_shows h.toShows).1
    | drop fromTop => rfl
    | store x hx => rfl

/-- After `rtc_fifo_init` the FIFO gives and holds the samples that it should exactly as long as
no restart comes with a time behind the last sample. -/
theorem contents_iff_steady (r : Storage) (s : RtcMem) (ops : List Op) :
    Along (step r) (Correct r)
        (init (UInt32.ofNat r.first) (UInt32.ofNat r.last) (UInt32.ofNat r.tagcount) s, ⟨[], []⟩)
        ops ↔
      Along (step r) (Steady r)
        (init (UInt32.ofNat r.first) (UInt32.ofNat r.last) (UInt32.ofNat r.tagcount) s, ⟨[], []⟩)
        ops :=
  along_congr (step r) (Correct r) (Steady r) (fun x => Holds r x.2 x.1)
    (fun _ op h => correct_iff h op)
    (fun _ op h hc => step_holds h op ((correct_iff h op).mp hc)) _ ops (init_holds r s)

end Runs

instance (r : Storage) (x : RtcMem × Held) (op : Op) : Decidable (Correct r x op) :=
  instDecidableAnd

/-- The storage of `rtc_fifo_init_default`. -/
def defaultStorage : Storage where
  first := 32
  last := 128
  tagcount := 5
  pos := by decide
  few := by decide
  room := by decide
  fits := by decide
  clear := by decide

/-- Two samples with a gap of 1000 seconds. -/
def lateSample : List Op :=
  [.store ⟨0, 1, 0, 0x61⟩ (by decide), .store ⟨1000, 2, 0, 0x61⟩ (by decide)]

/-- The second one is held with the time 1511. -/
theorem lateSample_not_correct :
    ¬Along (step defaultStorage) (Correct defaultStorage)
      (init 32 128 5 ⟨fun _ => 0, []⟩, ⟨[], []⟩) lateSample := by
  decide

end NodeMcu.Rtc.Contents
