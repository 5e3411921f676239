import Mathlib.Tactic.ByContra
import Mathlib.Tactic.SplitIfs
import NodeMcu.Coap.Segments

namespace NodeMcu.Coap.RequestOptions

open NodeMcu.Lib.Text NodeMcu.Lib.Memory NodeMcu.Coap.SplitUri NodeMcu.Coap.MakeRequest
  NodeMcu.Coap.Segments
open NodeMcu.Coap.Codec (maxopt uriHost uriPort uriPath uriQuery)

/-! ## One segment -/

def dots : List UInt8 := [0x2E, 0x2E]

theorem kept_eq_nil_iff (seg : List UInt8) :
    kept [seg] = [] ↔ seg = [] ∨ seg = [0x2E] ∨ seg = dots := by
  rw [kept, List.filter_eq_nil_iff]
  simp [dots, or_iff_not_imp_left]

theorem kept_single {seg : List UInt8} (h : kept [seg] ≠ []) : kept [seg] = [seg] := by
  rw [kept, List.filter_cons] at h ⊢
  split_ifs at h ⊢
  · rfl
  · exact absurd rfl h

/-- The comparison with `..` leaves out what does not count, and what begins with it. -/
theorem skipped_iff (seg : List UInt8) :
    seg.take (min seg.length 2) = dots.take (min seg.length 2) ↔
      kept [seg] = [] ∨ dots <+: seg := by
  match seg with
  | [] => exact iff_of_true rfl (.inl rfl)
  | [c] =>
    have hprefix : ¬dots <+: [c] := fun h => absurd h.length_le (by decide : ¬2 ≤ 1)
    by_cases hc : c = 0x2E
    · exact iff_of_true (by rw [hc]; rfl) (.inl (by rw [hc]; rfl))
    · refine iff_of_false (fun h => hc (List.cons.inj h).1) (not_or.mpr ⟨?_, hprefix⟩)
      simp [kept, hc]
  | c :: d :: seg =>
    have hmin : min (c :: d :: seg).length 2 = 2 := Nat.min_eq_right (by simp)
    have hprefix : (c :: d :: seg).take 2 = dots.take 2 ↔ dots <+: c :: d :: seg := by
      rw [List.prefix_iff_eq_take]
      exact eq_comm
    rw [hmin, hprefix]
    refine ⟨.inr, fun h => h.elim (fun hkept => ?_) id⟩
    obtain h | h | h := (kept_eq_nil_iff _).mp hkept
    · cases h
    · cases h
    · exact ⟨[], by rw [List.append_nil, h]⟩

theorem percentDecode_ne_nil {seg d : List UInt8} (hseg : seg ≠ [])
    (hd : percentDecode seg = some d) : d ≠ [] := by
  cases seg with
  | nil => exact absurd rfl hseg
  | cons c s =>
    rintro rfl
    by_cases hc : c = 0x25
    · subst hc
      match s, hd with
      | [], hd => cases hd
      | [_], hd => cases hd
      | a :: b :: s, hd =>
        rw [percentDecode_escape] at hd
        split_ifs at hd
        obtain ⟨_, _, h⟩ := Option.map_eq_some_iff.mp hd
        cases h
    · rw [percentDecode_plain hc] at hd
      obtain ⟨_, _, h⟩ := Option.map_eq_some_iff.mp hd
      cases h

/-- The scratch and the table as far as they are filled. -/
structure Bounded (t : Tables) (state : PktScr) : Prop where
  scratch : state.filled.length + state.left = t.size
  table : state.opts.length ≤ maxopt

/-- A segment that is decoded and stored. -/
def push (t : Tables) (d : List UInt8) (state : PktScr) : PktScr :=
  { opts := state.opts ++ [⟨t.old state.opts.length, d⟩]
    filled := state.filled ++ d
    left := state.left - d.length
    n := state.n + 1 }

theorem push_bounded {t : Tables} {d : List UInt8} {state : PktScr} (h : Bounded t state)
    (hd : d.length ≤ state.left) (hopts : state.opts.length < maxopt) :
    Bounded t (push t d state) := by
  have hscratch := h.scratch
  refine ⟨?_, ?_⟩
  · change (state.filled ++ d).length + (state.left - d.length) = t.size
    rw [List.length_append]
    omega
  · change (state.opts ++ [_]).length ≤ maxopt
    rw [List.length_append]
    exact hopts

section WriteOption

variable {t : Tables} {s : List UInt8} {len : Nat} {state : PktScr}

theorem writeOption_skipped (hlen : len ≤ s.length)
    (h : kept [s.take len] = [] ∨ dots <+: s.take len) : writeOption t s len state = .ok state := by
  have hskip := (skipped_iff (s.take len)).mpr h
  rw [List.length_take, Nat.min_eq_left hlen, List.take_take,
    Nat.min_eq_left (Nat.min_le_left len 2)] at hskip
  exact if_pos hskip

/-- A segment that counts is left out, or refused where it cannot be decoded, or stored as far as
there is room for it. -/
theorem writeOption_cases (hlen : len ≤ s.length) (hkept : kept [s.take len] ≠ [])
    (hstate : Bounded t state) :
    (¬(¬dots <+: s.take len ∧ (percentDecode (s.take len)).isSome) ∧
      (writeOption t s len state = .ok state ∨ writeOption t s len state = .error .endless)) ∨
    ∃ d, ¬dots <+: s.take len ∧ percentDecode (s.take len) = some d ∧
      writeOption t s len state =
        if state.left < d.length then .ok state
        else if maxopt ≤ state.opts.length then .error .outside
        else .ok (push t d state) := by
  by_cases hdots : dots <+: s.take len
  · exact .inl ⟨fun h => h.1 hdots, .inl (writeOption_skipped hlen (.inr hdots))⟩
  have hskip := mt (skipped_iff (s.take len)).mp (not_or.mpr ⟨hkept, hdots⟩)
  rw [List.length_take, Nat.min_eq_left hlen, List.take_take,
    Nat.min_eq_left (Nat.min_le_left len 2)] at hskip
  rw [dots] at hskip
  rw [writeOption, if_neg hskip]
  obtain ⟨hnone, hcheck | hcheck⟩ | ⟨d, hd, hcheck, hdec⟩ := checkSegment_eq len s 0 hlen
  · refine .inl ⟨fun h => ?_, .inl (by rw [hcheck])⟩
    rw [hnone] at h
    cases h.2
  · refine .inl ⟨fun h => ?_, .inr (by rw [hcheck])⟩
    rw [hnone] at h
    cases h.2
  · refine .inr ⟨d, hdots, hd, ?_⟩
    have hne : d ≠ [] := percentDecode_ne_nil
      (fun h => hkept ((kept_eq_nil_iff _).mpr (.inl h))) hd
    have hscratch := hstate.scratch
    rw [hcheck, Nat.zero_add]
    dsimp only
    by_cases hleft : state.left < d.length
    · rw [if_pos hleft, if_pos hleft]
    · rw [if_neg hleft, if_neg hleft, hdec]
      dsimp only
      rw [if_neg (by omega), if_neg (by simpa using hne), List.take_length]
      rfl

end WriteOption

/-! ## All segments -/

def decoded (seg : List UInt8) : List UInt8 := (percentDecode seg).getD []

def sizes (ds : List (List UInt8)) : Nat := (ds.map List.length).sum

/-- Segments that are all stored, in `left` bytes, behind `count` options. -/
structure Fits (left count : Nat) (segs : List (List UInt8)) : Prop where
  decodes : ∀ seg ∈ segs, ¬dots <+: seg ∧ (percentDecode seg).isSome
  scratch : sizes (segs.map decoded) ≤ left
  table : count + segs.length ≤ maxopt

theorem Fits.cons {left count : Nat} {seg d : List UInt8} {segs : List (List UInt8)}
    (hdots : ¬dots <+: seg) (hd : percentDecode seg = some d) (hleft : d.length ≤ left) :
    Fits left count (seg :: segs) ↔ Fits (left - d.length) (count + 1) segs := by
  have hsizes : sizes ((seg :: segs).map decoded) = d.length + sizes (segs.map decoded) := by
    rw [sizes, List.map_cons, List.map_cons, List.sum_cons, decoded, hd, Option.getD_some, ← sizes]
  constructor
  · intro h
    have hscratch := h.scratch
    have htable := h.table
    rw [List.length_cons] at htable
    exact ⟨fun x hx => h.decodes x (.tail _ hx), by omega, by omega⟩
  · intro h
    have hscratch := h.scratch
    have htable := h.table
    refine ⟨List.forall_mem_cons.mpr ⟨⟨hdots, by rw [hd]; rfl⟩, h.decodes⟩, by omega, ?_⟩
    rw [List.length_cons]
    omega

theorem Fits.append {left count : Nat} {segs segs' : List (List UInt8)} :
    Fits left count (segs ++ segs') ↔
      Fits left count segs ∧
        Fits (left - sizes (segs.map decoded)) (count + segs.length) segs' := by
  have hsizes : sizes ((segs ++ segs').map decoded) =
      sizes (segs.map decoded) + sizes (segs'.map decoded) := by
    rw [sizes, List.map_append, List.map_append, List.sum_append, ← sizes, ← sizes]
  constructor
  · intro h
    have hscratch := h.scratch
    have htable := h.table
    rw [List.length_append] at htable
    refine ⟨⟨fun x hx => h.decodes x (List.mem_append_left _ hx), by omega, by omega⟩,
      ⟨fun x hx => h.decodes x (List.mem_append_right _ hx), by omega, by omega⟩⟩
  · rintro ⟨h, h'⟩
    have hscratch := h.scratch
    have hscratch' := h'.scratch
    have htable' := h'.table
    refine ⟨?_, by omega, by rw [List.length_append]; omega⟩
    intro x hx
    exact (List.mem_append.mp hx).elim (h.decodes x) (h'.decodes x)

/-- The options that a split has stored so far. -/
structure Extends (t : Tables) (state : PktScr) (ds : List (List UInt8)) (state' : PktScr) :
    Prop where
  opts : ∃ new : List Opt, state'.opts = state.opts ++ new ∧ new.map Opt.buf = ds
  n : state'.n = state.n + ds.length
  left : state'.left + sizes ds = state.left
  bounded : Bounded t state'

theorem Extends.push {t : Tables} {state state' : PktScr} {d : List UInt8}
    {ds : List (List UInt8)} (hd : d.length ≤ state.left)
    (h : Extends t (push t d state) ds state') : Extends t state (d :: ds) state' := by
  obtain ⟨new, hopts, hnew⟩ := h.opts
  have hn := h.n
  have hleft := h.left
  change state'.n = state.n + 1 + ds.length at hn
  change state'.left + sizes ds = state.left - d.length at hleft
  have hsizes : sizes (d :: ds) = d.length + sizes ds := by
    rw [sizes, List.map_cons, List.sum_cons, ← sizes]
  refine ⟨⟨⟨t.old state.opts.length, d⟩ :: new, ?_, ?_⟩, ?_, by omega, h.bounded⟩
  · rw [hopts]
    exact List.append_assoc _ _ _
  · rw [List.map_cons, hnew]
  · rw [List.length_cons]
    omega

/-- Either all segments that count are stored, or, where the handler comes back, fewer. -/
def Handled (t : Tables) (state : PktScr) (segs : List (List UInt8)) (r : Except Stop PktScr) :
    Prop :=
  (Fits state.left state.opts.length segs ∧
    ∃ state', r = .ok state' ∧ Extends t state (segs.map decoded) state') ∨
  (¬Fits state.left state.opts.length segs ∧
    ∀ state', r = .ok state' → ∃ ds, Extends t state ds state' ∧ ds.length < segs.length)

section Handled

variable {t : Tables} {state : PktScr} {seg d : List UInt8} {segs : List (List UInt8)}
  {r : Except Stop PktScr}

theorem Handled.stopped {stop : Stop} (hnot : ¬Fits state.left state.opts.length segs) :
    Handled t state segs (.error stop) := by
  refine .inr ⟨hnot, fun state' hstate' => ?_⟩
  cases hstate'

theorem Handled.leftOut (h : Handled t state segs r)
    (hnot : ¬Fits state.left state.opts.length (seg :: segs)) :
    Handled t state (seg :: segs) r := by
  refine .inr ⟨hnot, fun state' hstate' => ?_⟩
  obtain ⟨-, state'', hrun, hextends⟩ | ⟨-, hless⟩ := h
  · rw [hrun] at hstate'
    cases hstate'
    exact ⟨_, hextends, by rw [List.length_map]; exact Nat.lt_succ_self _⟩
  · obtain ⟨ds, hextends, hlt⟩ := hless state' hstate'
    exact ⟨ds, hextends, Nat.lt_succ_of_lt hlt⟩

theorem Handled.push (h : Handled t (push t d state) segs r) (hdots : ¬dots <+: seg)
    (hd : percentDecode seg = some d) (hleft : d.length ≤ state.left) :
    Handled t state (seg :: segs) r := by
  have hcount : (RequestOptions.push t d state).opts.length = state.opts.length + 1 := by
    rw [RequestOptions.push, List.length_append]
    rfl
  rw [Handled, hcount] at h
  rw [Handled, Fits.cons hdots hd hleft, List.map_cons, decoded, hd]
  obtain ⟨hfits, state', hrun, hextends⟩ | ⟨hfits, hless⟩ := h
  · exact .inl ⟨hfits, state', hrun, hextends.push hleft⟩
  · refine .inr ⟨hfits, fun state' hstate' => ?_⟩
    obtain ⟨ds, hextends, hlt⟩ := hless state' hstate'
    exact ⟨d :: ds, hextends.push hleft, Nat.succ_lt_succ hlt⟩

end Handled

theorem handle_handled {t : Tables} (vs : List (List UInt8 × Nat))
    (hvs : ∀ v ∈ vs, v.2 ≤ v.1.length) {state : PktScr} (h : Bounded t state) :
    Handled t state (kept (vs.map fun v => v.1.take v.2)) (handle (writeOption t) vs state) := by
  induction vs generalizing state with
  | nil =>
    refine .inl ⟨⟨fun x hx => (List.not_mem_nil hx).elim, Nat.zero_le _, h.table⟩, state, rfl, ?_⟩
    exact ⟨⟨[], (List.append_nil _).symm, rfl⟩, rfl, rfl, h⟩
  | cons v vs ih =>
    obtain ⟨hv, hvs⟩ := List.forall_mem_cons.mp hvs
    have hcons : kept ((v :: vs).map fun v => v.1.take v.2) =
        kept [v.1.take v.2] ++ kept (vs.map fun v => v.1.take v.2) := kept_append [_] _
    rw [hcons]
    by_cases hkept : kept [v.1.take v.2] = []
    · rw [hkept, List.nil_append, handle, writeOption_skipped hv (.inl hkept)]
      exact ih hvs h
    rw [kept_single hkept, List.singleton_append, handle]
    obtain ⟨hseg, hwrite | hwrite⟩ | ⟨d, hdots, hd, hwrite⟩ := writeOption_cases hv hkept h
    · rw [hwrite]
      exact (ih hvs h).leftOut fun hfits => hseg (hfits.decodes _ (.head _))
    · rw [hwrite]
      exact .stopped fun hfits => hseg (hfits.decodes _ (.head _))
    rw [hwrite]
    by_cases hleft : state.left < d.length
    · rw [if_pos hleft]
      refine (ih hvs h).leftOut fun hfits => ?_
      have hscratch := hfits.scratch
      rw [sizes, List.map_cons, List.map_cons, List.sum_cons, decoded, hd,
        Option.getD_some] at hscratch
      omega
    rw [if_neg hleft]
    by_cases htable : maxopt ≤ state.opts.length
    · rw [if_pos htable]
      refine .stopped fun hfits => ?_
      have hcount := hfits.table
      rw [List.length_cons] at hcount
      omega
    rw [if_neg htable]
    have hd' : d.length ≤ state.left := Nat.le_of_not_lt hleft
    exact (ih hvs (push_bounded h hd' (Nat.lt_of_not_le htable))).push hdots hd hd'

/-! ## A split -/

/-- The options that a split adds under a number. -/
structure Adds (t : Tables) (num : UInt8) (state : PktScr) (ds : List (List UInt8))
    (state' : PktScr) : Prop where
  opts : state'.opts = state.opts ++ ds.map (Opt.mk num)
  left : state'.left + sizes ds = state.left
  bounded : Bounded t state'

theorem renumber_adds {t : Tables} {num : UInt8} {state state' : PktScr} {ds : List (List UInt8)}
    (h : Extends t { state with n := 0 } ds state') :
    Adds t num state ds (renumber num state') := by
  obtain ⟨new, hopts, hnew⟩ := h.opts
  have hn : state'.n = new.length := by
    rw [h.n, ← hnew, List.length_map]
    exact Nat.zero_add _
  have hfirst : state'.opts.length - state'.n = state.opts.length := by
    rw [hopts, hn, List.length_append, Nat.add_sub_cancel]
  have hrenumber : (renumber num state').opts = state.opts ++ ds.map (Opt.mk num) := by
    rw [renumber]
    dsimp only
    rw [hfirst, hopts, List.take_left, List.drop_left, ← hnew, List.map_map]
    rfl
  refine ⟨hrenumber, h.left, h.bounded.scratch, ?_⟩
  have htable := h.bounded.table
  rw [hrenumber, List.length_append, List.length_map, ← hnew, List.length_map]
  rw [hopts, List.length_append] at htable
  exact htable

/-- A split with its outcome: all segments are stored, or, where it comes back, fewer. -/
def Outcome (t : Tables) (num : UInt8) (segs : List (List UInt8)) (state : PktScr)
    (r : Except Stop PktScr) : Prop :=
  (Fits state.left state.opts.length segs ∧
    ∃ state', r = .ok state' ∧ Adds t num state (segs.map decoded) state') ∨
  (¬Fits state.left state.opts.length segs ∧
    ∀ state', r = .ok state' → ∃ ds, Adds t num state ds state' ∧ ds.length < segs.length)

theorem splitOptions_outcome {t : Tables} {separator : UInt8} {delim : List UInt8} {num : UInt8}
    {str : Str} {state : PktScr} (hsep : separator ∉ delim) (hstr : str.length ≤ str.s.length)
    (h : Bounded t state) :
    Outcome t num (segments separator delim str.bytes) state
      (splitOptions t separator delim num str state) := by
  have hahead : ahead ⟨str.length, separator, delim, str.s, 0⟩ = str.bytes := rfl
  have hsound : Sound ⟨str.length, separator, delim, str.s, 0⟩ := ⟨Nat.zero_le _, hstr⟩
  have hfuel : (ahead ⟨str.length, separator, delim, str.s, 0⟩).length < str.length + 1 := by
    rw [hahead, Str.bytes, List.length_take]
    omega
  obtain ⟨vs, hvs, hkept, hrun⟩ := splitPathImpl_eq (str.length + 1) hsound hsep hfuel
  rw [hahead] at hkept
  have hstate : Bounded t { state with n := 0 } := ⟨h.scratch, h.table⟩
  have hcases := handle_handled vs hvs hstate
  rw [hkept] at hcases
  rw [Outcome, splitOptions, hrun]
  obtain ⟨hfits, state', hhandle, hextends⟩ | ⟨hfits, hless⟩ := hcases
  · exact .inl ⟨hfits, renumber num state', by rw [hhandle], renumber_adds hextends⟩
  · refine .inr ⟨hfits, fun state' hstate' => ?_⟩
    cases hhandle : handle (writeOption t) vs { state with n := 0 } with
    | error e =>
      rw [hhandle] at hstate'
      cases hstate'
    | ok state'' =>
      rw [hhandle] at hstate'
      cases hstate'
      obtain ⟨ds, hextends, hlt⟩ := hless state'' hhandle
      exact ⟨ds, renumber_adds hextends, hlt⟩

def pathSegments (uri : Uri) : List (List UInt8) := segments 0x2F [0x3F, 0x23] uri.path.bytes

def querySegments (uri : Uri) : List (List UInt8) := segments 0x26 [0x23] uri.query.bytes

/-- The lengths of a split URI do not go beyond it. -/
structure Inside (uri : Uri) : Prop where
  path : uri.path.length ≤ uri.path.s.length
  query : uri.query.length ≤ uri.query.s.length

section Request

variable {t : Tables} {uri : Uri} {state : PktScr}

theorem outcome_nil (num : UInt8) (h : Bounded t state) : Outcome t num [] state (.ok state) := by
  refine .inl ⟨⟨fun x hx => (List.not_mem_nil hx).elim, Nat.zero_le _, h.table⟩, state, rfl, ?_⟩
  exact ⟨(List.append_nil _).symm, rfl, h⟩

theorem addPath_outcome (huri : Inside uri) (h : Bounded t state) :
    Outcome t uriPath (pathSegments uri) state (addPath t uri state) := by
  rw [addPath]
  by_cases hpath : uri.path.length = 0
  · rw [if_pos hpath, pathSegments, Str.bytes, hpath]
    exact outcome_nil _ h
  · rw [if_neg hpath]
    exact splitOptions_outcome (by decide) huri.path h

theorem addQuery_outcome (huri : Inside uri) (h : Bounded t state) :
    Outcome t uriQuery (querySegments uri) state (addQuery t uri state) := by
  rw [addQuery]
  by_cases hquery : uri.query.length = 0
  · rw [if_pos hquery, querySegments, Str.bytes, hquery]
    exact outcome_nil _ h
  · rw [if_neg hquery]
    exact splitOptions_outcome (by decide) huri.query h

theorem Outcome.adds {num : UInt8} {segs : List (List UInt8)} {r : Except Stop PktScr}
    {state' : PktScr} (h : Outcome t num segs state r) (hr : r = .ok state') :
    ∃ ds, Adds t num state ds state' := by
  obtain ⟨_, state'', hok, hadds⟩ | ⟨_, hless⟩ := h
  · rw [hr] at hok
    cases hok
    exact ⟨_, hadds⟩
  · obtain ⟨ds, hadds, _⟩ := hless state' hr
    exact ⟨ds, hadds⟩

/-! ## The request -/

def hostOpts (uri : Uri) : List Opt :=
  if uri.host.length = 0 then [] else [⟨uriHost, uri.host.bytes⟩]

def portBytes (uri : Uri) : List UInt8 :=
  if uri.port = defaultPort then [] else encodeVarBytes uri.port

def portOpts (uri : Uri) : List Opt :=
  if uri.port = defaultPort then [] else [⟨uriPort, encodeVarBytes uri.port⟩]

/-- The options in front of the path. -/
def firstOpts (uri : Uri) : List Opt := hostOpts uri ++ portOpts uri

theorem encodeVarBytes_length (n : UInt16) : (encodeVarBytes n).length ≤ 2 := by
  have hn : n.toNat < 256 * 256 := n.toNat_lt
  rw [encodeVarBytes, bigEndian_length, varLength]
  split_ifs
  · exact Nat.zero_le _
  · rw [varLength]
    split_ifs
    · decide
    · rw [varLength, if_pos (by omega)]

theorem portBytes_length (uri : Uri) : (portBytes uri).length ≤ 2 := by
  rw [portBytes]
  split_ifs
  · exact Nat.zero_le _
  · exact encodeVarBytes_length _

theorem hostOpts_length (uri : Uri) : (hostOpts uri).length ≤ 1 := by
  rw [hostOpts]
  split_ifs
  · exact Nat.zero_le _
  · exact Nat.le_refl _

theorem firstOpts_length (uri : Uri) : (firstOpts uri).length ≤ 2 := by
  have hport : (portOpts uri).length ≤ 1 := by
    rw [portOpts]
    split_ifs
    · exact Nat.zero_le _
    · exact Nat.le_refl _
  rw [firstOpts, List.length_append]
  exact Nat.add_le_add (hostOpts_length uri) hport

/-- The state in front of the path. -/
def start (t : Tables) (uri : Uri) : PktScr :=
  ⟨firstOpts uri, portBytes uri, t.size - (portBytes uri).length, 0⟩

theorem start_bounded (hsize : ¬t.size < 2) : Bounded t (start t uri) := by
  have hport : (portBytes uri).length ≤ t.size := by
    have := portBytes_length uri
    omega
  have htwo : 2 ≤ maxopt := by decide
  exact ⟨Nat.add_sub_of_le hport, Nat.le_trans (firstOpts_length uri) htwo⟩

theorem addHost_eq : addHost uri ⟨[], [], t.size, 0⟩ = .ok ⟨hostOpts uri, [], t.size, 0⟩ := by
  have hroom : ¬maxopt ≤ ([] : List Opt).length := by decide
  rw [addHost, hostOpts]
  by_cases hhost : uri.host.length = 0
  · rw [if_pos hhost, if_pos hhost]
  · rw [if_neg hhost, if_neg hhost, if_neg hroom]
    rfl

theorem addPort_eq (hsize : ¬t.size < 2) :
    addPort t uri ⟨hostOpts uri, [], t.size, 0⟩ = .ok (start t uri) := by
  have hlength := encodeVarBytes_length uri.port
  have hhost := hostOpts_length uri
  have hroom : ¬maxopt ≤ (hostOpts uri).length := by
    rw [maxopt]
    omega
  have hbytes : ¬t.size < ([] : List UInt8).length + (encodeVarBytes uri.port).length := by
    rw [List.length_nil]
    omega
  rw [addPort, start, firstOpts, portOpts, portBytes]
  by_cases hport : uri.port = defaultPort
  · rw [if_pos hport, if_pos hport, if_pos hport, List.append_nil]
    rfl
  · rw [if_neg hport, if_neg hport, if_neg hport, if_neg hroom]
    exact if_neg hbytes

variable {messageId : UInt16} {type method : UInt8} {payload : List UInt8} {made : Made}

theorem makeRequest_ok_iff (hsize : ¬t.size < 2) :
    makeRequest t messageId type method uri payload = .ok made ↔
      ∃ s s' : PktScr, addPath t uri (start t uri) = .ok s ∧ addQuery t uri s = .ok s' ∧
        made = ⟨0, ⟨⟨1, type, UInt8.ofNat theToken.length, method,
          ((messageId >>> 8).toUInt8, messageId.toUInt8)⟩, theToken, s'.opts, payload⟩,
          messageId + 1⟩ := by
  rw [makeRequest, if_neg hsize, addHost_eq]
  change (addPort t uri _ >>= fun s => addPath t uri s >>= fun s => addQuery t uri s >>= _) = _ ↔ _
  rw [addPort_eq hsize]
  change (addPath t uri (start t uri) >>= fun s => addQuery t uri s >>= _) = _ ↔ _
  constructor
  · intro h
    cases hpath : addPath t uri (start t uri) with
    | error e =>
      rw [hpath] at h
      cases h
    | ok s =>
      rw [hpath] at h
      change (addQuery t uri s >>= _) = _ at h
      cases hquery : addQuery t uri s with
      | error e =>
        rw [hquery] at h
        cases h
      | ok s' =>
        rw [hquery] at h
        cases h
        exact ⟨s, s', rfl, hquery, rfl⟩
  · rintro ⟨s, s', hs, hs', rfl⟩
    rw [hs]
    change (addQuery t uri s >>= _) = _
    rw [hs']
    rfl

end Request

/-- The values of the options of a number. -/
def values (num : UInt8) (opts : List Opt) : List (List UInt8) :=
  (opts.filter fun o => o.num == num).map Opt.buf

/-- A request with its options in order, all segments of the path and the query among them. -/
structure Carries (uri : Uri) (made : Made) : Prop where
  table : made.request.opts.length ≤ maxopt
  sorted : (made.request.opts.map Opt.num).Pairwise (· ≤ ·)
  path : made.rc = 0 →
    (values uriPath made.request.opts).map some = (pathSegments uri).map percentDecode
  query : made.rc = 0 →
    (values uriQuery made.request.opts).map some = (querySegments uri).map percentDecode

section Layout

variable (uri : Uri) (ps qs : List (List UInt8))

/-- The options as they are stored one group after the other. -/
def layout : List Opt := firstOpts uri ++ ps.map (Opt.mk uriPath) ++ qs.map (Opt.mk uriQuery)

theorem values_map (num num' : UInt8) (ds : List (List UInt8)) :
    values num (ds.map (Opt.mk num')) = if num' = num then ds else [] := by
  rw [values, List.filter_map, List.map_map]
  change (ds.filter fun _ => num' == num).map id = _
  rw [List.map_id]
  by_cases h : num' = num
  · rw [if_pos h, List.filter_eq_self.mpr fun d _ => beq_iff_eq.mpr h]
  · rw [if_neg h, List.filter_eq_nil_iff.mpr fun d _ => mt beq_iff_eq.mp h]

theorem firstOpts_num {o : Opt} (h : o ∈ firstOpts uri) : o.num = uriHost ∨ o.num = uriPort := by
  obtain h | h := List.mem_append.mp h
  · rw [hostOpts] at h
    split_ifs at h
    · cases h
    · exact .inl (congrArg Opt.num (List.mem_singleton.mp h))
  · rw [portOpts] at h
    split_ifs at h
    · cases h
    · exact .inr (congrArg Opt.num (List.mem_singleton.mp h))

theorem firstOpts_sorted : ((firstOpts uri).map Opt.num).Pairwise (· ≤ ·) := by
  rw [firstOpts, hostOpts, portOpts]
  split_ifs
  · exact .nil
  · exact List.pairwise_singleton _ _
  · exact List.pairwise_singleton _ _
  · exact List.Pairwise.cons (by simp [uriHost, uriPort]) (List.pairwise_singleton _ _)

theorem layout_values :
    values uriPath (layout uri ps qs) = ps ∧ values uriQuery (layout uri ps qs) = qs := by
  have happend : ∀ num (as bs : List Opt),
      values num (as ++ bs) = values num as ++ values num bs := by
    intro num as bs
    rw [values, List.filter_append, List.map_append, ← values, ← values]
  have hfirst : ∀ num, uriHost ≠ num → uriPort ≠ num → values num (firstOpts uri) = [] := by
    intro num hhost hport
    rw [values, List.filter_eq_nil_iff.mpr, List.map_nil]
    intro o ho hnum
    obtain h | h := firstOpts_num uri ho
    · exact hhost (h ▸ beq_iff_eq.mp hnum)
    · exact hport (h ▸ beq_iff_eq.mp hnum)
  constructor
  · rw [layout, happend, happend, hfirst _ (by decide) (by decide), values_map, values_map,
      if_pos rfl, if_neg (by decide), List.append_nil, List.nil_append]
  · rw [layout, happend, happend, hfirst _ (by decide) (by decide), values_map, values_map,
      if_pos rfl, if_neg (by decide), List.append_nil, List.nil_append]

theorem layout_sorted : ((layout uri ps qs).map Opt.num).Pairwise (· ≤ ·) := by
  have hsame : ∀ num (ds : List (List UInt8)),
      ((ds.map (Opt.mk num)).map Opt.num).Pairwise (· ≤ ·) := by
    intro num ds
    rw [List.map_map]
    exact List.pairwise_map.mpr (List.pairwise_of_forall fun _ _ => UInt8.le_refl num)
  have hmem : ∀ {num n} {ds : List (List UInt8)},
      n ∈ (ds.map (Opt.mk num)).map Opt.num → n = num := by
    intro num n ds hn
    rw [List.map_map] at hn
    obtain ⟨_, _, h⟩ := List.mem_map.mp hn
    exact h.symm
  have hfirst : ∀ n ∈ (firstOpts uri).map Opt.num, n ≤ uriPath := by
    intro n hn
    obtain ⟨o, ho, rfl⟩ := List.mem_map.mp hn
    obtain h | h := firstOpts_num uri ho
    · rw [h]
      decide
    · rw [h]
      decide
  rw [layout, List.map_append, List.map_append, List.pairwise_append, List.pairwise_append]
  refine ⟨⟨firstOpts_sorted uri, hsame _ _, fun n hn m hm => ?_⟩, hsame _ _, fun n hn m hm => ?_⟩
  · rw [hmem hm]
    exact hfirst n hn
  · rw [hmem hm]
    obtain hn | hn := List.mem_append.mp hn
    · exact UInt8.le_trans (hfirst n hn) (by decide)
    · rw [hmem hn]
      decide

end Layout

theorem layout_of_adds {t : Tables} {uri : Uri} {s s' : PktScr} {ps qs : List (List UInt8)}
    (hs : Adds t uriPath (start t uri) ps s) (hs' : Adds t uriQuery s qs s') :
    s'.opts = layout uri ps qs := by
  rw [hs'.opts, hs.opts]
  rfl

theorem map_decoded {left count : Nat} {segs : List (List UInt8)} (h : Fits left count segs) :
    (segs.map decoded).map some = segs.map percentDecode := by
  rw [List.map_map]
  refine List.map_congr_left fun seg hseg => ?_
  obtain ⟨d, hd⟩ := Option.isSome_iff_exists.mp (h.decodes seg hseg).2
  change some ((percentDecode seg).getD []) = percentDecode seg
  rw [hd, Option.getD_some]

theorem carries_of_layout {uri : Uri} {made : Made} {ps qs : List (List UInt8)}
    (hopts : made.request.opts = layout uri ps qs) (htable : made.request.opts.length ≤ maxopt)
    (hrc : made.rc = 0) :
    Carries uri made ↔ ps.map some = (pathSegments uri).map percentDecode ∧
      qs.map some = (querySegments uri).map percentDecode := by
  obtain ⟨hpath, hquery⟩ := layout_values uri ps qs
  rw [← hopts] at hpath hquery
  constructor
  · intro h
    have hp := h.path hrc
    have hq := h.query hrc
    rw [hpath] at hp
    rw [hquery] at hq
    exact ⟨hp, hq⟩
  · rintro ⟨hp, hq⟩
    refine ⟨htable, ?_, fun _ => ?_, fun _ => ?_⟩
    · rw [hopts]
      exact layout_sorted uri ps qs
    · rw [hpath]
      exact hp
    · rw [hquery]
      exact hq

/-- Where every segment that counts has its option, and only there, the request is in order. -/
theorem inside_carries_iff (t : Tables) (messageId : UInt16) (type method : UInt8)
    (payload : List UInt8) {uri : Uri} (huri : Inside uri) :
    (∃ made, makeRequest t messageId type method uri payload = .ok made ∧ Carries uri made) ↔
      t.size < 2 ∨ Fits (t.size - (portBytes uri).length) (firstOpts uri).length
        (pathSegments uri ++ querySegments uri) := by
  by_cases hsize : t.size < 2
  · refine iff_of_true ⟨_, if_pos hsize, ?_⟩ (.inl hsize)
    have hrc : Codec.Err.bufferTooSmall.code ≠ 0 := by decide
    exact ⟨Nat.zero_le _, .nil, fun h => absurd h hrc, fun h => absurd h hrc⟩
  rw [or_iff_right hsize, Fits.append]
  have hstart : Bounded t (start t uri) := start_bounded hsize
  -- fewer options than segments are not all of them
  have hshort : ∀ {ds : List (List UInt8)} {segs : List (List UInt8)}, ds.length < segs.length →
      ds.map some ≠ segs.map percentDecode := by
    intro ds segs hlt h
    have := congrArg List.length h
    rw [List.length_map, List.length_map] at this
    omega
  obtain ⟨hfits, s, hs, hadds⟩ | ⟨hfits, hless⟩ := addPath_outcome huri hstart
  · have hleft : s.left =
        t.size - (portBytes uri).length - sizes ((pathSegments uri).map decoded) :=
      Nat.eq_sub_of_add_eq hadds.left
    have hcount : s.opts.length = (firstOpts uri).length + (pathSegments uri).length := by
      rw [hadds.opts, List.length_append, List.length_map, List.length_map]
      rfl
    have hquery := addQuery_outcome huri hadds.bounded
    rw [Outcome, hleft, hcount] at hquery
    obtain ⟨hfits', s', hs', hadds'⟩ | ⟨hfits', hless'⟩ := hquery
    · refine iff_of_true ?_ ⟨hfits, hfits'⟩
      refine ⟨_, (makeRequest_ok_iff hsize).mpr ⟨s, s', hs, hs', rfl⟩, ?_⟩
      exact (carries_of_layout (layout_of_adds hadds hadds') hadds'.bounded.table rfl).mpr
        ⟨map_decoded hfits, map_decoded hfits'⟩
    · refine iff_of_false ?_ (fun h => hfits' h.2)
      rintro ⟨made, hmade, hcarries⟩
      obtain ⟨s₁, s', hs₁, hs', rfl⟩ := (makeRequest_ok_iff hsize).mp hmade
      rw [hs] at hs₁
      cases hs₁
      obtain ⟨ds, hadds', hlt⟩ := hless' s' hs'
      exact hshort hlt ((carries_of_layout (layout_of_adds hadds hadds')
        hadds'.bounded.table rfl).mp hcarries).2
  · refine iff_of_false ?_ (fun h => hfits h.1)
    rintro ⟨made, hmade, hcarries⟩
    obtain ⟨s, s', hs, hs', rfl⟩ := (makeRequest_ok_iff hsize).mp hmade
    obtain ⟨ds, hadds, hlt⟩ := hless s hs
    obtain ⟨ds', hadds'⟩ := (addQuery_outcome huri hadds.bounded).adds hs'
    exact hshort hlt ((carries_of_layout (layout_of_adds hadds hadds')
      hadds'.bounded.table rfl).mp hcarries).1

/-! ## The URI -/

section Pointers

variable {p q : List UInt8} {uri : Uri}

theorem splitQuery_inside {len : Nat} (hlen : len ≤ p.length) (h : Inside uri) :
    Inside (splitQuery p len uri).2 := by
  rw [splitQuery]
  split_ifs
  · refine ⟨h.path, ?_⟩
    change len - 1 ≤ p.tail.length
    rw [List.length_tail]
    exact Nat.sub_le_sub_right hlen 1
  · exact h
  · exact h

theorem splitPath_inside (hq : q.length ≤ p.length) (h : Inside uri) :
    Inside (splitPath p q uri).2 := by
  rw [splitPath]
  split_ifs
  · exact h
  · dsimp only
    split_ifs
    · exact splitQuery_inside (Nat.le_refl _) ⟨Nat.sub_le _ _, h.query⟩
    · exact splitQuery_inside (List.length_dropWhile_le _ _) h
  · exact splitQuery_inside hq h

theorem splitPort_inside (hq : q.length ≤ p.length) (h : Inside uri) :
    Inside (splitPort p q uri).2 := by
  rw [splitPort]
  split_ifs
  · dsimp only
    split_ifs
    · exact splitPath_inside (Nat.le_refl _) ⟨h.path, h.query⟩
    · exact splitPath_inside (List.length_dropWhile_le _ _) h
  · exact splitPath_inside hq h

theorem emptyUri_inside : Inside emptyUri := ⟨Nat.le_refl _, Nat.le_refl _⟩

theorem splitHost_inside (p : List UInt8) : Inside (splitHost p).2 := by
  rw [splitHost]
  split_ifs
  · dsimp only
    split_ifs
    · exact emptyUri_inside
    · refine splitPort_inside ?_ ⟨Nat.le_refl _, Nat.le_refl _⟩
      have := List.length_dropWhile_le (· != 0x5D) p
      rw [List.length_tail, List.length_tail]
      exact Nat.sub_le_sub_right this 1
  · dsimp only
    split_ifs
    · exact emptyUri_inside
    · refine splitPort_inside ?_ ⟨Nat.le_refl _, Nat.le_refl _⟩
      rw [List.length_append]
      exact Nat.le_add_left _ _

theorem splitUri_inside (text : List UInt8) : Inside (splitUri text).2 := by
  rw [splitUri]
  split_ifs
  · exact splitPath_inside (Nat.le_refl _) emptyUri_inside
  · cases skipLiteral (bytesOf "coap") text with
    | none => exact emptyUri_inside
    | some p =>
      dsimp only
      cases skipLiteral (bytesOf "://") (if p.head?.map toLower = some 0x73 then p.tail else p) with
      | none => exact emptyUri_inside
      | some p => exact splitHost_inside p

end Pointers

/-- A request comes out in order if and only if every segment that counts decodes, does not begin
with `..`, and has room in the scratch and the table, or there is no request at all. -/
theorem makeRequest_carries_iff (t : Tables) (messageId : UInt16) (type method : UInt8)
    (text payload : List UInt8) :
    (∃ made, makeRequest t messageId type method (splitUri text).2 payload = .ok made ∧
        Carries (splitUri text).2 made) ↔
      t.size < 2 ∨
        Fits (t.size - (portBytes (splitUri text).2).length) (firstOpts (splitUri text).2).length
          (pathSegments (splitUri text).2 ++ querySegments (splitUri text).2) :=
  inside_carries_iff t messageId type method payload (splitUri_inside text)

def longPath : List UInt8 :=
  bytesOf "coap://h/a/a/a/a/a/a/a/a/a/a/a/a/a/a/a/a"

/-- A host and sixteen segments are one option too many. -/
theorem longPath_not_carries :
    (splitUri longPath).1 = 0 ∧
      ¬∃ made, makeRequest ⟨60, fun _ => 0⟩ 0 0 1 (splitUri longPath).2 [] = .ok made ∧
        Carries (splitUri longPath).2 made := by
  refine ⟨by decide +kernel, fun h => ?_⟩
  have hsize : ¬60 < 2 := by decide
  have hfits := ((inside_carries_iff _ _ _ _ _ (splitUri_inside longPath)).mp h).resolve_left hsize
  have hcount : ¬(firstOpts (splitUri longPath).2).length +
      (pathSegments (splitUri longPath).2 ++ querySegments (splitUri longPath).2).length ≤
        maxopt := by
    decide +kernel
  exact hcount hfits.table

end NodeMcu.Coap.RequestOptions
