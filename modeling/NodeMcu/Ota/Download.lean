import NodeMcu.Ota.HttpHeader

namespace NodeMcu.Ota.Download

open NodeMcu.Lib.Run NodeMcu.Lib.Search NodeMcu.Lib.Text NodeMcu.Ota.Upgrade NodeMcu.Ota.HttpHeader

/-! ## Responses and their segments -/

/-- A line of the header names the length. The name may be written in any case, and blanks may stand
in front of the digits. -/
def Declares (header : List UInt8) (n : Nat) : Prop :=
  ∃ front name blanks digits rest : List UInt8,
    header = front ++ lineEnd ++ name ++ [0x3A] ++ blanks ++ digits ++ lineEnd ++ rest ∧
    (name.map fun c => if 0x41 ≤ c ∧ c ≤ 0x5A then c + 0x20 else c) = bytesOf "content-length" ∧
    (∀ c ∈ blanks, c = 0x20 ∨ c = 9) ∧ digits ≠ [] ∧ (∀ c ∈ digits, isDigit c) ∧
    decimal digits = n

/-- A header with the status 200 and the length of the body that is behind it. -/
structure Response where
  header : Header
  body : List UInt8
  ok : status header.bytes = bytesOf "200"
  declares : Declares header.bytes body.length
  pos : 0 < body.length

def Response.bytes (r : Response) : List UInt8 := r.header.bytes ++ r.body

def joined (segments : List Segment) : List UInt8 := segments.flatMap Segment.bytes

/-- The bytes in segments, one after the other. -/
structure Cut (bytes : List UInt8) where
  segments : List Segment
  joins : joined segments = bytes

/-- The segments among the events. -/
def arrived (events : List Event) : List Segment :=
  events.filterMap fun
    | .segment seg => some seg
    | _ => none

/-- The download of a response, whatever `atoi` gives for a number out of its range: the body is
flashed and the download is complete at the end, and as long as a segment is still missing it is
not, wherever a timeout or the end of the connection comes in between. -/
structure Downloads (r : Response) (cut : Cut r.bytes) : Prop where
  flashed : ∀ overflow romSlot callback,
    (run (step overflow) (requested romSlot callback)
      (cut.segments.map .segment)).written.flatten = r.body
  finish : ∀ overflow romSlot callback,
    (run (step overflow) (requested romSlot callback)
      (cut.segments.map .segment)).upgradeFlag = .finish
  early : ∀ overflow romSlot callback events, arrived events <+: cut.segments →
    arrived events ≠ cut.segments →
    (run (step overflow) (requested romSlot callback) events).upgradeFlag ≠ .finish

/-- The number of bytes of the body in the first segments. -/
def bodyLength (r : Response) (cut : Cut r.bytes) (k : Nat) : Nat :=
  (joined (cut.segments.take k)).length - r.header.bytes.length

/-- The header is in the first segment, and the first name of the length in it is followed by the
length of the body, as a word. The last condition speaks of bodies of 2 ^ 32 bytes and more: the
number of bytes received so far is not the length, as a word, before the end. -/
structure Sound (r : Response) (cut : Cut r.bytes) : Prop where
  whole : r.header.bytes.length ≤ (joined (cut.segments.take 1)).length
  number : ∃ text, LengthText r.header.bytes text ∧ IsInt (number text) ∧
    UInt32.ofInt (number text) = UInt32.ofNat r.body.length
  ends : ∀ k, k < cut.segments.length →
    UInt32.ofNat (bodyLength r cut k) ≠ UInt32.ofNat r.body.length

/-! ## The end of a download -/

/-- The download has come to an end without success. -/
structure Stopped (s : CompMsgOta) : Prop where
  uud : s.uud = none
  flag : s.upgradeFlag ≠ .finish

theorem run_ended (overflow : Int) {s : CompMsgOta} (h : s.uud = none) (events : List Event) :
    run (step overflow) s events = s := by
  induction events with
  | nil => rfl
  | cons e events ih =>
    rw [run_cons, show step overflow s e = s by rw [step, h]]
    exact ih

theorem deinit_stopped (u : UserUpgradeData) {s : CompMsgOta} (h : s.upgradeFlag ≠ .finish) :
    Stopped (compMsgOtaDeinit u s) := by
  refine ⟨rfl, ?_⟩
  simp only [compMsgOtaDeinit, decide_eq_true_eq, if_neg h]
  decide

/-- Without a segment a download that is not complete stops. -/
theorem step_quiet (overflow : Int) {s : CompMsgOta} {e : Event} (h : s.upgradeFlag ≠ .finish)
    (he : ∀ seg, e ≠ .segment seg) : Stopped (step overflow s e) := by
  rw [step]
  cases huud : s.uud with
  | none => exact ⟨huud, h⟩
  | some u =>
    cases e with
    | segment seg => exact absurd rfl (he seg)
    | disconnected =>
      change Stopped (upgradeDisconCb s)
      rw [upgradeDisconCb, huud]
      exact deinit_stopped _ h
    | timedOut => exact deinit_stopped u h

/-- A download becomes complete only at a segment, so with its segments alone it becomes complete
as well. -/
theorem finish_arrived (overflow : Int) {s : CompMsgOta} (h : s.upgradeFlag ≠ .finish)
    {events : List Event} (hfinish : (run (step overflow) s events).upgradeFlag = .finish) :
    ∃ k, k ≤ (arrived events).length ∧
      (run (step overflow) s (((arrived events).take k).map .segment)).upgradeFlag = .finish := by
  induction events generalizing s with
  | nil => exact absurd hfinish h
  | cons e events ih =>
    rw [run_cons] at hfinish
    cases e with
    | segment seg =>
      by_cases hs : (step overflow s (.segment seg)).upgradeFlag = .finish
      · exact ⟨1, Nat.succ_le_succ (Nat.zero_le _), hs⟩
      · obtain ⟨k, hk, hrun⟩ := ih hs hfinish
        exact ⟨k + 1, Nat.succ_le_succ hk, hrun⟩
    | disconnected =>
      have hstopped := step_quiet overflow h (e := .disconnected) fun _ => by nofun
      rw [run_ended overflow hstopped.uud] at hfinish
      exact absurd hfinish hstopped.flag
    | timedOut =>
      have hstopped := step_quiet overflow h (e := .timedOut) fun _ => by nofun
      rw [run_ended overflow hstopped.uud] at hfinish
      exact absurd hfinish hstopped.flag

/-! ## The chunks of the body -/

/-- The length is known, and the chunks are written that have arrived. -/
structure Receiving (c : UInt32) (chunks : List UInt8) (s : CompMsgOta) (u : UserUpgradeData) :
    Prop where
  uud : s.uud = some u
  flag : s.upgradeFlag ≠ .finish
  contentLen : u.contentLen = c
  totalLen : u.totalLen = UInt32.ofNat chunks.length
  conn : u.conn ≠ none
  written : s.written.flatten = chunks

structure Complete (chunks : List UInt8) (s : CompMsgOta) : Prop where
  uud : s.uud = none
  flag : s.upgradeFlag = .finish
  written : s.written.flatten = chunks

/-- Behind a chunk the download is complete if the total is the length `c`, and otherwise it goes
on. -/
def Outcome (c : UInt32) (chunks : List UInt8) (s : CompMsgOta) : Prop :=
  if UInt32.ofNat chunks.length = c then Complete chunks s else ∃ u, Receiving c chunks s u

theorem outcome_complete {c : UInt32} {chunks : List UInt8} {s : CompMsgOta}
    (h : Outcome c chunks s) (hc : UInt32.ofNat chunks.length = c) : Complete chunks s := by
  rwa [Outcome, if_pos hc] at h

theorem outcome_receiving {c : UInt32} {chunks : List UInt8} {s : CompMsgOta}
    (h : Outcome c chunks s) (hc : UInt32.ofNat chunks.length ≠ c) :
    ∃ u, Receiving c chunks s u := by
  rwa [Outcome, if_neg hc] at h

theorem checkFinished_outcome {c : UInt32} {chunks : List UInt8} {s : CompMsgOta}
    {u : UserUpgradeData} (hflag : s.upgradeFlag ≠ .finish) (hcontent : u.contentLen = c)
    (htotal : u.totalLen = UInt32.ofNat chunks.length) (hconn : u.conn = some .read)
    (hwritten : s.written.flatten = chunks) : Outcome c chunks (checkFinished u s) := by
  rw [Outcome, checkFinished, hcontent, htotal]
  by_cases hc : UInt32.ofNat chunks.length = c
  · rw [if_pos hc, if_pos hc]
    exact ⟨rfl, rfl, hwritten⟩
  · rw [if_neg hc, if_neg hc, if_neg (not_not.mpr hconn)]
    exact ⟨u, rfl, hflag, hcontent, htotal, by rw [hconn]; decide, hwritten⟩

theorem conn_read {conn : Option EspconnState} (h : conn ≠ none) :
    (conn.map fun _ => EspconnState.read) = some .read := by
  cases conn with
  | none => exact absurd rfl h
  | some c => rfl

/-- A segment that is behind the header adds its bytes. -/
theorem step_receiving (overflow : Int) {c : UInt32} (hc : c ≠ 0) {chunks : List UInt8}
    {s : CompMsgOta} {u : UserUpgradeData} (h : Receiving c chunks s u) (seg : Segment) :
    Outcome c (chunks ++ seg.bytes) (step overflow s (.segment seg)) := by
  have hcontent : u.contentLen ≠ 0 := by rwa [h.contentLen]
  rw [step, h.uud]
  change Outcome c (chunks ++ seg.bytes) (upgradeRecvCb overflow seg.bytes _ s)
  rw [upgradeRecvCb, if_neg hcontent]
  refine checkFinished_outcome h.flag h.contentLen ?_ (conn_read h.conn) ?_
  · change u.totalLen + UInt32.ofNat seg.bytes.length = _
    rw [h.totalLen, List.length_append, UInt32.ofNat_add]
  · rw [List.flatten_append, h.written, List.flatten_singleton]

theorem run_outcome (overflow : Int) {c : UInt32} (hc : c ≠ 0) {chunks : List UInt8}
    {s : CompMsgOta} (h : Outcome c chunks s) (segments : List Segment)
    (hends : ∀ k, k < segments.length →
      UInt32.ofNat (chunks ++ joined (segments.take k)).length ≠ c) :
    Outcome c (chunks ++ joined segments) (run (step overflow) s (segments.map .segment)) := by
  induction segments generalizing chunks s with
  | nil =>
    rw [joined, List.flatMap_nil, List.append_nil]
    exact h
  | cons seg segments ih =>
    have hfirst := hends 0 (Nat.succ_pos _)
    rw [List.take_zero, joined, List.flatMap_nil, List.append_nil] at hfirst
    obtain ⟨u, hu⟩ := outcome_receiving h hfirst
    rw [List.map_cons, run_cons, joined, List.flatMap_cons, ← List.append_assoc]
    refine ih (step_receiving overflow hc hu seg) fun k hk => ?_
    have hnext := hends (k + 1) (Nat.succ_lt_succ hk)
    rwa [List.take_succ_cons, joined, List.flatMap_cons, ← List.append_assoc] at hnext

theorem outcome_written {c : UInt32} {chunks : List UInt8} {s : CompMsgOta}
    (h : Outcome c chunks s) : s.written.flatten = chunks := by
  by_cases hc : UInt32.ofNat chunks.length = c
  · exact (outcome_complete h hc).written
  · obtain ⟨u, hu⟩ := outcome_receiving h hc
    exact hu.written

/-! ## The first segment -/

section First

variable (overflow : Int) (romSlot : UInt8) (callback : Bool) (seg : Segment)

theorem requested_flag : (requested romSlot callback).upgradeFlag ≠ .finish :=
  fun h => nomatch h

theorem first_stopped (h : httpHeader seg.bytes = none) :
    Stopped (step overflow (requested romSlot callback) (.segment seg)) := by
  change Stopped (upgradeRecvCb overflow seg.bytes _ _)
  rw [upgradeRecvCb, if_pos rfl, h]
  exact deinit_stopped _ (requested_flag romSlot callback)

theorem first_outcome {dataAt : Nat} {len : List UInt8}
    (h : httpHeader seg.bytes = some (dataAt, len)) :
    Outcome (UInt32.ofInt (atoi overflow len)) (seg.bytes.drop dataAt)
      (step overflow (requested romSlot callback) (.segment seg)) := by
  change Outcome _ _ (upgradeRecvCb overflow seg.bytes _ _)
  rw [upgradeRecvCb, if_pos rfl, h]
  refine checkFinished_outcome (requested_flag romSlot callback) rfl ?_ rfl ?_
  · exact UInt32.zero_add _
  · rw [List.flatten_append, List.flatten_singleton]
    rfl

theorem run_first {dataAt : Nat} {len : List UInt8}
    (h : httpHeader seg.bytes = some (dataAt, len)) (hc : UInt32.ofInt (atoi overflow len) ≠ 0)
    (segments : List Segment) (hends : ∀ k, k < segments.length →
      UInt32.ofNat (seg.bytes.drop dataAt ++ joined (segments.take k)).length ≠
        UInt32.ofInt (atoi overflow len)) :
    Outcome (UInt32.ofInt (atoi overflow len)) (seg.bytes.drop dataAt ++ joined segments)
      (run (step overflow) (requested romSlot callback) ((seg :: segments).map .segment)) := by
  rw [List.map_cons, run_cons]
  exact run_outcome overflow hc (first_outcome overflow romSlot callback seg h) segments hends

end First

/-! ## Bytes that are lost -/

theorem checkFinished_written (u : UserUpgradeData) (s : CompMsgOta) :
    (checkFinished u s).written = s.written := by
  rw [checkFinished]
  split_ifs <;> rfl

/-- A segment writes no more than its bytes. -/
theorem step_written_le (overflow : Int) (s : CompMsgOta) (seg : Segment) :
    (step overflow s (.segment seg)).written.flatten.length ≤
      s.written.flatten.length + seg.bytes.length := by
  rw [step]
  cases s.uud with
  | none => exact Nat.le_add_right _ _
  | some u =>
    change (upgradeRecvCb overflow seg.bytes _ s).written.flatten.length ≤ _
    rw [upgradeRecvCb]
    split_ifs
    · cases httpHeader seg.bytes with
      | none => exact Nat.le_add_right _ _
      | some found =>
        simp only [checkFinished_written, List.flatten_append, List.flatten_singleton,
          List.length_append, List.length_drop]
        omega
    · simp only [checkFinished_written, List.flatten_append, List.flatten_singleton,
        List.length_append, le_refl]

theorem run_written_le (overflow : Int) (s : CompMsgOta) (segments : List Segment) :
    (run (step overflow) s (segments.map .segment)).written.flatten.length ≤
      s.written.flatten.length + (joined segments).length := by
  induction segments generalizing s with
  | nil => exact Nat.le_add_right _ _
  | cons seg segments ih =>
    have hstep := step_written_le overflow s seg
    have hrun := ih (step overflow s (.segment seg))
    rw [List.map_cons, run_cons, joined, List.flatMap_cons, List.length_append]
    rw [joined] at hrun
    omega

/-- As long as the length is zero the next segment is read as a header, and its bytes are lost. -/
theorem step_zero (overflow : Int) {chunks : List UInt8} {s : CompMsgOta} {u : UserUpgradeData}
    (h : Receiving 0 chunks s u) (seg : Segment) :
    Stopped (step overflow s (.segment seg)) ∨
      (step overflow s (.segment seg)).written.flatten.length <
        chunks.length + seg.bytes.length := by
  rw [step, h.uud]
  change Stopped (upgradeRecvCb overflow seg.bytes _ s) ∨
    (upgradeRecvCb overflow seg.bytes _ s).written.flatten.length < _
  rw [upgradeRecvCb, if_pos h.contentLen]
  cases hread : httpHeader seg.bytes with
  | none => exact .inl (deinit_stopped _ h.flag)
  | some found =>
    have hat := (httpHeader_status hread).2
    have hne := List.length_pos_iff.mpr seg.nonempty
    refine .inr ?_
    simp only [checkFinished_written, List.flatten_append, List.flatten_singleton, h.written,
      List.length_append, List.length_drop]
    omega

/-! ## The condition -/

section Cut

variable {r : Response} {cut : Cut r.bytes} {seg : Segment} {segments : List Segment}

theorem exists_first (r : Response) (cut : Cut r.bytes) :
    ∃ seg segments, cut.segments = seg :: segments := by
  cases hcut : cut.segments with
  | nil =>
    have hjoins := congrArg List.length cut.joins
    rw [hcut, Response.bytes, List.length_append] at hjoins
    have hpos := r.pos
    change 0 = _ at hjoins
    omega
  | cons seg segments => exact ⟨seg, segments, rfl⟩

theorem joined_first (hcut : cut.segments = seg :: segments) :
    seg.bytes ++ joined segments = r.header.bytes ++ r.body := by
  rw [← Response.bytes, ← cut.joins, hcut]
  rfl

theorem joined_take_one (hcut : cut.segments = seg :: segments) :
    joined (cut.segments.take 1) = seg.bytes := by
  rw [hcut, List.take_succ_cons, List.take_zero, joined, List.flatMap_cons, List.flatMap_nil,
    List.append_nil]

/-- Behind a header that is in the first segment as a whole the chunks are the body. -/
theorem chunks_body (hcut : cut.segments = seg :: segments)
    (hwhole : r.header.bytes.length ≤ seg.bytes.length) :
    seg.bytes = r.header.bytes ++ seg.bytes.drop r.header.bytes.length ∧
      seg.bytes.drop r.header.bytes.length ++ joined segments = r.body := by
  have hjoin := joined_first hcut
  constructor
  · have htake := congrArg (List.take r.header.bytes.length) hjoin
    rw [List.take_append_of_le_length hwhole, List.take_left] at htake
    rw [← htake, List.length_take, min_eq_left hwhole, List.take_append_drop]
  · rw [← List.drop_append_of_le_length hwhole, hjoin, List.drop_left]

theorem bodyLength_succ (hcut : cut.segments = seg :: segments)
    (hwhole : r.header.bytes.length ≤ seg.bytes.length) (k : Nat) :
    bodyLength r cut (k + 1) =
      (seg.bytes.drop r.header.bytes.length ++ joined (segments.take k)).length := by
  rw [bodyLength, hcut, List.take_succ_cons, joined, List.flatMap_cons,
    ← List.drop_append_of_le_length hwhole, List.length_drop]
  rfl

theorem bodyLength_zero (r : Response) (cut : Cut r.bytes) : bodyLength r cut 0 = 0 :=
  Nat.zero_sub _

theorem arrived_map (segments : List Segment) : arrived (segments.map .segment) = segments := by
  rw [arrived, List.filterMap_map]
  exact List.filterMap_some

/-- Under the condition the chunks of the first segments are written, and the download is complete
behind the last one only. -/
theorem sound_outcome (h : Sound r cut) (hcut : cut.segments = seg :: segments)
    (overflow : Int) (romSlot : UInt8) (callback : Bool) {k : Nat} (hk : k ≤ segments.length) :
    Outcome (UInt32.ofNat r.body.length)
      (seg.bytes.drop r.header.bytes.length ++ joined (segments.take k))
      (run (step overflow) (requested romSlot callback)
        ((seg :: segments.take k).map .segment)) := by
  have hwhole := h.whole
  rw [joined_take_one hcut] at hwhole
  obtain ⟨text, htext, hint, hnumber⟩ := h.number
  have hread : httpHeader seg.bytes = some (r.header.bytes.length, text) := by
    rw [(chunks_body hcut hwhole).1, httpHeader_whole]
    exact ⟨(status_append r.ok _).trans r.ok, htext⟩
  have hatoi : UInt32.ofInt (atoi overflow text) = UInt32.ofNat r.body.length := by
    rw [atoi, if_pos hint, hnumber]
  have hzero : UInt32.ofInt (atoi overflow text) ≠ 0 := by
    have hstart := h.ends 0 (by rw [hcut]; exact Nat.succ_pos _)
    rw [hatoi]
    rw [bodyLength_zero] at hstart
    exact hstart.symm
  have hrun := run_first overflow romSlot callback seg hread hzero (segments.take k) ?_
  · rwa [hatoi] at hrun
  · intro j hj
    rw [List.length_take] at hj
    have hend := h.ends (j + 1) (by rw [hcut]; exact Nat.succ_lt_succ (by omega))
    rw [bodyLength_succ hcut hwhole] at hend
    rw [hatoi, List.take_take, min_eq_left (by omega)]
    exact hend

theorem downloads_of_sound (h : Sound r cut) : Downloads r cut := by
  obtain ⟨seg, segments, hcut⟩ := exists_first r cut
  have hwhole := h.whole
  rw [joined_take_one hcut] at hwhole
  have hbody := (chunks_body hcut hwhole).2
  have hcomplete : ∀ overflow romSlot callback, Complete r.body
      (run (step overflow) (requested romSlot callback) (cut.segments.map .segment)) := by
    intro overflow romSlot callback
    have houtcome := sound_outcome h hcut overflow romSlot callback le_rfl
    rw [List.take_length, hbody, ← hcut] at houtcome
    exact outcome_complete houtcome rfl
  refine ⟨fun o slot c => (hcomplete o slot c).written, fun o slot c => (hcomplete o slot c).flag,
    fun overflow romSlot callback events hpart hne hfinish => ?_⟩
  obtain ⟨k, hk, hrun⟩ := finish_arrived overflow (requested_flag romSlot callback) hfinish
  have hlt : (arrived events).length < cut.segments.length :=
    lt_of_le_of_ne hpart.length_le fun heq => hne (hpart.eq_of_length heq)
  obtain ⟨rest, hrest⟩ := hpart
  have htake : (arrived events).take k = cut.segments.take k := by
    rw [← hrest, List.take_append_of_le_length hk]
  rw [htake, hcut] at hrun
  cases k with
  | zero => exact requested_flag romSlot callback hrun
  | succ k =>
    have hk' : k < segments.length := by
      rw [hcut] at hlt
      exact Nat.lt_of_succ_lt_succ (lt_of_le_of_lt hk hlt)
    have hend := h.ends (k + 1) (lt_of_le_of_lt hk hlt)
    rw [bodyLength_succ hcut hwhole] at hend
    obtain ⟨u, hu⟩ :=
      outcome_receiving (sound_outcome h hcut overflow romSlot callback hk'.le) hend
    exact hu.flag hrun

/-! ## Why the condition is needed -/

/-- The code finds the end of the header in the first segment: otherwise it stops there, or it
loses bytes of the body. -/
theorem downloads_read (h : Downloads r cut) (hcut : cut.segments = seg :: segments) :
    ∃ text, httpHeader seg.bytes = some (r.header.bytes.length, text) ∧
      r.header.bytes.length ≤ seg.bytes.length := by
  have hfinish := h.finish 0 0 false
  have hflashed := congrArg List.length (h.flashed 0 0 false)
  have hjoin := joined_first hcut
  rw [hcut, List.map_cons, run_cons] at hfinish hflashed
  cases hread : httpHeader seg.bytes with
  | none =>
    have hstopped := first_stopped 0 0 false seg hread
    rw [run_ended 0 hstopped.uud] at hfinish
    exact absurd hfinish hstopped.flag
  | some found =>
    obtain ⟨dataAt, text⟩ := found
    have hpart : seg.bytes <+: r.header.bytes ++ r.body := ⟨joined segments, hjoin⟩
    obtain ⟨hle, hin⟩ := httpHeader_behind r.header hpart hread
    have hwritten := outcome_written (first_outcome 0 0 false seg hread)
    have hrun := run_written_le 0 (step 0 (requested 0 false) (.segment seg)) segments
    have hlen := congrArg List.length hjoin
    rw [hwritten, List.length_drop] at hrun
    rw [List.length_append, List.length_append] at hlen
    have hat : dataAt = r.header.bytes.length := by omega
    rw [hat]
    exact ⟨text, rfl, by omega⟩

/-- The length that is read is not zero: the next segment would be read as a header again. -/
theorem downloads_ne_zero (h : Downloads r cut) (hcut : cut.segments = seg :: segments)
    {text : List UInt8} (hread : httpHeader seg.bytes = some (r.header.bytes.length, text))
    (hwhole : r.header.bytes.length ≤ seg.bytes.length) (overflow : Int) :
    UInt32.ofInt (atoi overflow text) ≠ 0 := by
  intro hzero
  have hfinish := h.finish overflow 0 false
  have hflashed := h.flashed overflow 0 false
  have hbody := congrArg List.length (chunks_body hcut hwhole).2
  have houtcome := first_outcome overflow 0 false seg hread
  have hfits := seg.fits
  have hpos := r.pos
  rw [hcut, List.map_cons, run_cons] at hfinish hflashed
  rw [hzero] at houtcome
  rw [List.length_append, List.length_drop] at hbody
  by_cases hchunk : UInt32.ofNat (seg.bytes.drop r.header.bytes.length).length = 0
  · have hcomplete := outcome_complete houtcome hchunk
    rw [run_ended overflow hcomplete.uud, hcomplete.written] at hflashed
    have hword := congrArg UInt32.toNat hchunk
    have hlen := congrArg List.length hflashed
    rw [UInt32.toNat_ofNat', List.length_drop, UInt32.toNat_zero] at hword
    rw [List.length_drop] at hlen
    omega
  · obtain ⟨u, hu⟩ := outcome_receiving houtcome hchunk
    cases segments with
    | nil => exact hu.flag hfinish
    | cons next segments =>
      rw [List.map_cons, run_cons] at hfinish hflashed
      obtain hstopped | hlost := step_zero overflow hu next
      · rw [run_ended overflow hstopped.uud] at hfinish
        exact hstopped.flag hfinish
      · have hrun := run_written_le overflow
          (step overflow (step overflow (requested 0 false) (.segment seg)) (.segment next))
          segments
        rw [hflashed] at hrun
        rw [joined, List.flatMap_cons, List.length_append] at hbody
        rw [List.length_drop] at hlost
        rw [joined] at hrun
        omega

/-- The length that is read is the length of the body, and the total does not meet it before the
end. -/
theorem downloads_length (h : Downloads r cut) (hcut : cut.segments = seg :: segments)
    {text : List UInt8} (hread : httpHeader seg.bytes = some (r.header.bytes.length, text))
    (hwhole : r.header.bytes.length ≤ seg.bytes.length) (overflow : Int) :
    UInt32.ofInt (atoi overflow text) = UInt32.ofNat r.body.length ∧
      ∀ k, k < segments.length →
        UInt32.ofNat (seg.bytes.drop r.header.bytes.length ++ joined (segments.take k)).length ≠
          UInt32.ofInt (atoi overflow text) := by
  have hzero := downloads_ne_zero h hcut hread hwhole overflow
  have hends : ∀ k, k < segments.length →
      UInt32.ofNat (seg.bytes.drop r.header.bytes.length ++ joined (segments.take k)).length ≠
        UInt32.ofInt (atoi overflow text) := by
    intro k
    induction k using Nat.strong_induction_on with
    | _ k ih =>
      intro hk heq
      have houtcome := run_first overflow 0 false seg hread hzero (segments.take k) ?_
      · have hcomplete := outcome_complete houtcome heq
        have harrived := arrived_map (seg :: segments.take k)
        refine h.early overflow 0 false _ ?_ ?_ hcomplete.flag
        · rw [harrived, hcut, List.prefix_cons_inj]
          exact List.take_prefix k segments
        · rw [harrived, hcut]
          intro hlist
          have hlen := congrArg List.length hlist
          rw [List.length_cons, List.length_cons, List.length_take] at hlen
          omega
      · intro j hj
        rw [List.length_take] at hj
        rw [List.take_take, min_eq_left (by omega)]
        exact ih j (by omega) (by omega)
  refine ⟨?_, hends⟩
  have houtcome := run_first overflow 0 false seg hread hzero segments hends
  rw [(chunks_body hcut hwhole).2, ← hcut] at houtcome
  by_contra hne
  obtain ⟨u, hu⟩ := outcome_receiving houtcome (Ne.symm hne)
  exact hu.flag (h.finish overflow 0 false)

theorem sound_of_downloads (h : Downloads r cut) : Sound r cut := by
  obtain ⟨seg, segments, hcut⟩ := exists_first r cut
  obtain ⟨text, hread, hwhole⟩ := downloads_read h hcut
  have htext : LengthText r.header.bytes text := by
    have hread' := hread
    rw [(chunks_body hcut hwhole).1] at hread'
    exact ((httpHeader_whole r.header _).mp hread').2
  have hlength := fun overflow => downloads_length h hcut hread hwhole overflow
  have hint : IsInt (number text) := by
    by_contra hnot
    have hone := (hlength 1).1
    have htwo := (hlength 2).1
    rw [atoi, if_neg hnot] at hone htwo
    exact absurd (hone.trans htwo.symm) (by decide)
  have hatoi : ∀ overflow, atoi overflow text = number text := fun _ => if_pos hint
  obtain ⟨hnumber, hends⟩ := hlength 0
  have hzero := downloads_ne_zero h hcut hread hwhole 0
  rw [hatoi] at hnumber hends hzero
  refine ⟨by rwa [joined_take_one hcut], ⟨text, htext, hint, hnumber⟩, fun k hk => ?_⟩
  cases k with
  | zero =>
    rw [bodyLength_zero, ← hnumber]
    exact hzero.symm
  | succ k =>
    rw [hcut] at hk
    rw [bodyLength_succ hcut hwhole, ← hnumber]
    exact hends k (Nat.lt_of_succ_lt_succ hk)

end Cut

/-! ## Answers with another status -/

theorem arrived_segment (seg : Segment) (events : List Event) :
    arrived (.segment seg :: events) = seg :: arrived events := rfl

/-- The first segment of an answer with another status ends the download. -/
theorem not_finished_of_status (overflow : Int) (romSlot : UInt8) (callback : Bool)
    {bytes : List UInt8} (hstatus : status bytes ≠ bytesOf "200") (events : List Event)
    (hpart : joined (arrived events) <+: bytes) :
    (run (step overflow) (requested romSlot callback) events).upgradeFlag ≠ .finish := by
  have hquiet : ∀ {s : CompMsgOta} (events : List Event), Stopped s →
      (run (step overflow) s events).upgradeFlag ≠ .finish := by
    intro s events hs
    rw [run_ended overflow hs.uud]
    exact hs.flag
  cases events with
  | nil => exact requested_flag romSlot callback
  | cons e events =>
    rw [run_cons]
    cases e with
    | segment seg =>
      refine hquiet events (first_stopped overflow romSlot callback seg ?_)
      cases hread : httpHeader seg.bytes with
      | none => rfl
      | some found =>
        rw [arrived_segment, joined, List.flatMap_cons] at hpart
        obtain ⟨rest, hrest⟩ := (List.prefix_append seg.bytes _).trans hpart
        have hok := (httpHeader_status hread).1
        rw [← hrest, status_append hok] at hstatus
        exact absurd hok hstatus
    | disconnected =>
      exact hquiet events
        (step_quiet overflow (requested_flag romSlot callback) fun _ => by nofun)
    | timedOut =>
      exact hquiet events
        (step_quiet overflow (requested_flag romSlot callback) fun _ => by nofun)

theorem downloads_iff_sound (r : Response) (cut : Cut r.bytes) :
    (Downloads r cut ↔ Sound r cut) ∧
    ∀ (overflow : Int) (romSlot : UInt8) (callback : Bool) (bytes : List UInt8),
      status bytes ≠ bytesOf "200" → ∀ events : List Event, joined (arrived events) <+: bytes →
        (run (step overflow) (requested romSlot callback) events).upgradeFlag ≠ .finish :=
  ⟨⟨sound_of_downloads, downloads_of_sound⟩, fun overflow romSlot callback _ hstatus =>
    not_finished_of_status overflow romSlot callback hstatus⟩

/-! ## A header in two segments -/

def okText : List UInt8 := bytesOf "HTTP/1.1 200 OK\r\nContent-Length: 4\r\n\r\n"

def okHeader : Header where
  bytes := okText
  text := by decide +kernel
  blank := ⟨by decide +kernel, by decide +kernel⟩

def okResponse : Response where
  header := okHeader
  body := [1, 2, 3, 4]
  ok := by decide
  declares := by
    refine ⟨bytesOf "HTTP/1.1 200 OK", bytesOf "Content-Length", bytesOf " ", bytesOf "4",
      lineEnd, ?_, ?_, ?_, ?_, ?_, ?_⟩ <;> decide +kernel
  pos := by decide

def splitHeader : Cut okResponse.bytes where
  segments := [⟨okText.take 20, by decide, by decide⟩,
    ⟨okText.drop 20 ++ [1, 2, 3, 4], by decide, by decide⟩]
  joins := by decide

theorem splitHeader_not_downloads : ¬Downloads okResponse splitHeader := by
  intro h
  have hflashed := h.flashed 0 0 false
  have hwritten : (run (step 0) (requested 0 false)
    (splitHeader.segments.map .segment)).written = [] := by decide
  rw [hwritten] at hflashed
  cases hflashed

/-- The same response in segments that begin with its whole header. -/
def splitBody : Cut okResponse.bytes where
  segments := [⟨okText ++ [1], by decide, by decide⟩, ⟨[2, 3, 4], by decide, by decide⟩]
  joins := by decide

example : (run (step 0) (requested 0 false) (splitBody.segments.map .segment)).written =
    [[1], [2, 3, 4]] := by decide

end NodeMcu.Ota.Download
