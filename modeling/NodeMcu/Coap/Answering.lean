import Mathlib.Tactic.SplitIfs
import NodeMcu.Coap.Endpoints

namespace NodeMcu.Coap.Answering

open NodeMcu.Lib.Text NodeMcu.Coap.Codec NodeMcu.Coap.Endpoints

/-! ## The loop -/

section Scan

variable {σ : Type} {visit : LuserEntry → World σ → Option Ending × World σ}
  {gone missed : Ending} {opt : List UInt8} {w : World σ}

theorem scan_other {h : LuserEntry} (hname : h.name ≠ opt) (fuel : Nat) (hs : List LuserEntry) :
    scan visit gone missed opt (fuel + 1) (h :: hs) w = scan visit gone missed opt fuel hs w := by
  rw [scan, if_neg hname]
  split_ifs <;> rfl

section Same

variable {h : LuserEntry} (hname : h.name = opt) (fuel : Nat) (hs : List LuserEntry)
include hname

theorem scan_gone (hL : h.hasL = false) :
    scan visit gone missed opt (fuel + 1) (h :: hs) w = some (gone, w) := by
  rw [scan, if_neg (fun hne => hne (by rw [hname])), if_pos hname, hL]
  rfl

variable (hL : h.hasL = true)
include hL

theorem scan_same (hopt : opt ≠ []) :
    scan visit gone missed opt (fuel + 1) (h :: hs) w =
      match visit h w with
      | (some ending, w) => some (ending, w)
      | (none, w) => scan visit gone missed opt fuel (h :: hs) w := by
  have hlength : h.name.length ≠ 0 := by
    rw [hname]
    exact mt List.length_eq_zero_iff.mp hopt
  rw [scan, if_neg (fun hne => hne (by rw [hname])), if_pos hname, hL, if_neg (by decide)]
  exact if_pos hlength

theorem scan_visit (hopt : opt ≠ []) {ending : Ending} {w' : World σ}
    (hvisit : visit h w = (some ending, w')) :
    scan visit gone missed opt (fuel + 1) (h :: hs) w = some (ending, w') := by
  rw [scan_same hname fuel hs hL hopt, hvisit]

theorem scan_again (hopt : opt ≠ []) {w' : World σ} (hvisit : visit h w = (none, w')) :
    scan visit gone missed opt (fuel + 1) (h :: hs) w =
      scan visit gone missed opt fuel (h :: hs) w' := by
  rw [scan_same hname fuel hs hL hopt, hvisit]

/-- An entry without a name is never left. -/
theorem scan_stuck (hopt : opt = []) : scan visit gone missed opt fuel (h :: hs) w = none := by
  have hlength : ¬h.name.length ≠ 0 := by
    rw [hname, hopt]
    exact fun h => h rfl
  induction fuel with
  | zero => rfl
  | succ fuel ih =>
    rw [scan, if_neg (fun hne => hne (by rw [hname])), if_pos hname, hL, if_neg (by decide),
      if_neg hlength, ih]

end Same

/-- The loop comes to the entry of the name, or to the end. -/
theorem scan_find (visit : LuserEntry → World σ → Option Ending × World σ) (gone missed : Ending)
    (opt : List UInt8) (w : World σ) (entries : List LuserEntry) :
    (entries.find? (fun h => h.name = opt) = none ∧
      scan visit gone missed opt (entries.length + 1) entries w = some (missed, w)) ∨
    ∃ h rest k, entries.find? (fun h => h.name = opt) = some h ∧ h.name = opt ∧
      k < entries.length ∧ ∀ fuel, scan visit gone missed opt fuel entries w =
        scan visit gone missed opt (fuel - k) (h :: rest) w := by
  induction entries with
  | nil => exact .inl ⟨rfl, rfl⟩
  | cons a entries ih =>
    by_cases hname : a.name = opt
    · exact .inr ⟨a, entries, 0, List.find?_cons_of_pos (decide_eq_true hname), hname,
        Nat.succ_pos _, fun _ => rfl⟩
    · rw [List.find?_cons_of_neg (by simpa using hname)]
      obtain ⟨hfind, hscan⟩ | ⟨h, rest, k, hfind, hh, hk, hscan⟩ := ih
      · refine .inl ⟨hfind, ?_⟩
        rw [List.length_cons, scan_other hname]
        exact hscan
      · refine .inr ⟨h, rest, k + 1, hfind, hh, Nat.succ_lt_succ hk, fun fuel => ?_⟩
        cases fuel with
        | zero => rw [Nat.zero_sub]; rfl
        | succ fuel => rw [scan_other hname, hscan, Nat.add_sub_add_right]

/-- No visit takes a call back. -/
theorem scan_calls (hvisit : ∀ h w, w.calls ≤ (visit h w).2.calls) {fuel : Nat}
    {entries : List LuserEntry} {ending : Ending} {w' : World σ}
    (h : scan visit gone missed opt fuel entries w = some (ending, w')) : w.calls ≤ w'.calls := by
  induction fuel generalizing entries w with
  | zero => cases h
  | succ fuel ih =>
    cases entries with
    | nil =>
      cases h
      exact Nat.le_refl _
    | cons a entries =>
      by_cases hname : a.name = opt
      · cases hL : a.hasL with
        | false =>
          rw [scan_gone hname fuel entries hL] at h
          cases h
          exact Nat.le_refl _
        | true =>
          by_cases hopt : opt = []
          · rw [scan_stuck hname _ entries hL hopt] at h
            cases h
          · have hcalls := hvisit a w
            cases hv : visit a w with
            | mk o w₁ =>
              rw [hv] at hcalls
              cases o with
              | none =>
                rw [scan_again hname fuel entries hL hopt hv] at h
                exact Nat.le_trans hcalls (ih h)
              | some e =>
                rw [scan_visit hname fuel entries hL hopt hv] at h
                cases h
                exact hcalls
      · rw [scan_other hname] at h
        exact ih h

end Scan

/-! ## One response and at most one call -/

variable {σ : Type} {lua : Lua σ} {entries : List LuserEntry} {scratch : Nat} {inpkt : Packet}
  {id : UInt8 × UInt8} {s : σ}

/-- A handler comes back with a response after at most so many steps of its loop, and has called at
most one function. -/
def Answers (steps : Nat) (handler : Nat → World σ → Option (Ending × World σ)) (s : σ) : Prop :=
  ∃ fuel ≤ steps, ∃ response w, handler fuel ⟨s, 0⟩ = some (.reply response, w) ∧ w.calls ≤ 1

/-- A visit gives a response, or the one after it does. -/
def VisitedOnce (visit : LuserEntry → World σ → Option Ending × World σ) (h : LuserEntry)
    (s : σ) : Prop :=
  (∃ response w, visit h ⟨s, 0⟩ = (some (.reply response), w) ∧ w.calls ≤ 1) ∨
    ∃ w response w', visit h ⟨s, 0⟩ = (none, w) ∧ visit h w = (some (.reply response), w') ∧
      w'.calls ≤ 1

section Loop

variable {visit : LuserEntry → World σ → Option Ending × World σ}
  {gone missed : Except Err Response}
  {opt : List UInt8}

theorem scan_of_visitedOnce {h : LuserEntry} (hname : h.name = opt) (rest : List LuserEntry)
    (hL : h.hasL = true) (hopt : opt ≠ []) (hvisit : VisitedOnce visit h s) :
    ∃ n ≤ 2, ∃ response w,
      scan visit (.reply gone) (.reply missed) opt n (h :: rest) ⟨s, 0⟩ =
        some (.reply response, w) ∧ w.calls ≤ 1 := by
  obtain ⟨response, w, hv, hw⟩ | ⟨w₁, response, w, hv, hv₂, hw⟩ := hvisit
  · exact ⟨1, Nat.le_succ 1, response, w, scan_visit hname 0 rest hL hopt hv, hw⟩
  · refine ⟨2, Nat.le_refl 2, response, w, ?_, hw⟩
    rw [scan_again hname 1 rest hL hopt hv, scan_visit hname 0 rest hL hopt hv₂]

variable (hcalls : ∀ h w, w.calls ≤ (visit h w).2.calls)
  (hvain : ∀ h w, (visit h w).1 = none → w.calls < (visit h w).2.calls)
include hcalls hvain

/-- Each visit in vain calls a function, so that a second one is a call too many. -/
theorem visitedOnce_of_scan {h : LuserEntry} (hname : h.name = opt) {rest : List LuserEntry}
    (hL : h.hasL = true) (hopt : opt ≠ []) {n : Nat} {response : Except Err Response} {w : World σ}
    (hrun : scan visit (.reply gone) (.reply missed) opt n (h :: rest) ⟨s, 0⟩ =
      some (.reply response, w)) (hw : w.calls ≤ 1) : VisitedOnce visit h s := by
  match n, hrun with
  | m + 1, hrun =>
    have hvain₁ := hvain h ⟨s, 0⟩
    match hv : visit h ⟨s, 0⟩ with
    | (some e, w₁) =>
      rw [scan_visit hname m rest hL hopt hv] at hrun
      cases hrun
      exact .inl ⟨response, w, hv, hw⟩
    | (none, w₁) =>
      rw [scan_again hname m rest hL hopt hv] at hrun
      rw [hv] at hvain₁
      have h₁ := hvain₁ rfl
      match m, hrun with
      | m + 1, hrun =>
        have hvain₂ := hvain h w₁
        match hv₂ : visit h w₁ with
        | (some e, w₂) =>
          rw [scan_visit hname m rest hL hopt hv₂] at hrun
          cases hrun
          exact .inr ⟨w₁, response, w, hv, hv₂, hw⟩
        | (none, w₂) =>
          rw [scan_again hname m rest hL hopt hv₂] at hrun
          rw [hv₂] at hvain₂
          have h₂ := hvain₂ rfl
          have h₃ := scan_calls hcalls hrun
          dsimp only at h₁ h₂
          omega

/-- The loop answers once if and only if the entry that it finds has a name and is visited in
vain at most once. -/
theorem scan_answers_iff :
    Answers (entries.length + 2)
        (fun fuel => scan visit (.reply gone) (.reply missed) opt fuel entries) s ↔
      ∀ h, entries.find? (fun h => h.name = opt) = some h → h.hasL = true →
        h.name ≠ [] ∧ VisitedOnce visit h s := by
  constructor
  · rintro ⟨fuel, -, response, w, hrun, hw⟩ h hfind hL
    dsimp only at hrun
    rcases scan_find visit (.reply gone) (.reply missed) opt ⟨s, 0⟩ entries with
      ⟨hnone, -⟩ | ⟨h', rest, k, hfind', hname, -, hscan⟩
    · rw [hnone] at hfind
      cases hfind
    obtain rfl : h' = h := Option.some.inj (hfind'.symm.trans hfind)
    rw [hscan] at hrun
    have hopt : opt ≠ [] := by
      intro hopt
      rw [scan_stuck hname _ rest hL hopt] at hrun
      cases hrun
    exact ⟨hname ▸ hopt, visitedOnce_of_scan hcalls hvain hname hL hopt hrun hw⟩
  · intro hall
    rcases scan_find visit (.reply gone) (.reply missed) opt ⟨s, 0⟩ entries with
      ⟨-, hscan⟩ | ⟨h, rest, k, hfind, hname, hk, hscan⟩
    · exact ⟨entries.length + 1, Nat.le_succ _, missed, ⟨s, 0⟩, hscan, Nat.zero_le _⟩
    cases hL : h.hasL with
    | false =>
      refine ⟨k + 1, by omega, gone, ⟨s, 0⟩, (hscan _).trans ?_, Nat.zero_le _⟩
      rw [Nat.add_sub_cancel_left]
      exact scan_gone hname 0 rest hL
    | true =>
      obtain ⟨hne, hvisit⟩ := hall h hfind hL
      obtain ⟨n, hn, response, w, hrun, hw⟩ :=
        scan_of_visitedOnce hname rest hL (hname ▸ hne) hvisit
      refine ⟨k + n, by omega, response, w, (hscan _).trans ?_, hw⟩
      rw [Nat.add_sub_cancel_left]
      exact hrun

end Loop

/-- The name behind the path, where the path has one. -/
def asked (inpkt : Packet) : Option (List UInt8) :=
  let opt := findOptions inpkt uriPath
  if opt.length = pathCount + 1 then some (lastOption opt) else none

theorem asked_none {α : Type} {inpkt : Packet} (h : asked inpkt = none) (missed found : α) :
    (if findOptions inpkt uriPath = [] then missed
      else if (findOptions inpkt uriPath).length ≠ pathCount ∧
          (findOptions inpkt uriPath).length ≠ pathCount + 1 then missed
      else if (findOptions inpkt uriPath).length = pathCount + 1 then found
      else missed) = missed := by
  have hlength : (findOptions inpkt uriPath).length ≠ pathCount + 1 := by
    intro hlength
    rw [asked, if_pos hlength] at h
    cases h
  rw [if_neg hlength]
  split_ifs <;> rfl

theorem asked_last {inpkt : Packet} {name : List UInt8} (h : asked inpkt = some name) :
    (findOptions inpkt uriPath).length = pathCount + 1 ∧
      lastOption (findOptions inpkt uriPath) = name := by
  rw [asked] at h
  split_ifs at h with hlength
  exact ⟨hlength, Option.some.inj h⟩

theorem asked_some {α : Type} {inpkt : Packet} {name : List UInt8} (h : asked inpkt = some name)
    (missed found : α) :
    (if findOptions inpkt uriPath = [] then missed
      else if (findOptions inpkt uriPath).length ≠ pathCount ∧
          (findOptions inpkt uriPath).length ≠ pathCount + 1 then missed
      else if (findOptions inpkt uriPath).length = pathCount + 1 then found
      else missed) = found := by
  obtain ⟨hlength, -⟩ := asked_last h
  have hne : findOptions inpkt uriPath ≠ [] := by
    intro hnil
    rw [hnil] at hlength
    cases hlength
  rw [if_neg hne, if_neg (fun h => h.2 hlength), if_pos hlength]

/-- The entry for the name that is asked for, if it is registered and attached. -/
def Chosen (entries : List LuserEntry) (inpkt : Packet) (h : LuserEntry) : Prop :=
  ∃ name ∈ asked inpkt, entries.find? (fun h => h.name = name) = some h ∧ h.hasL = true

/-- A function gives nothing, or a text that fits, or it is gone when it is looked for again. -/
def CalledOnce (lua : Lua σ) (payload : List UInt8) (name : List UInt8) (s : σ) : Prop :=
  ∀ f, (lua.getglobal s name).1 = .function f →
    let r := lua.call (lua.getglobal s name).2 f payload
    r.1 = .nil ∨ (∃ text ∈ r.1.text, text.length ≤ maxPayloadSize) ∨
      (r.1.text = none ∧ ∀ g, (lua.getglobal r.2 name).1 ≠ .function g)

theorem not_chosen (hasked : asked inpkt = none) (h : LuserEntry) : ¬Chosen entries inpkt h := by
  rintro ⟨name, hname, -⟩
  rw [hasked] at hname
  cases hname

/-- A handler looks for the name that is asked for, and for nothing where none is. -/
theorem asked_answers_iff {visit : LuserEntry → World σ → Option Ending × World σ}
    {gone missed : Except Err Response} (hcalls : ∀ h w, w.calls ≤ (visit h w).2.calls)
    (hvain : ∀ h w, (visit h w).1 = none → w.calls < (visit h w).2.calls) :
    Answers (entries.length + 2)
        (fun fuel w =>
          if findOptions inpkt uriPath = [] then some (.reply missed, w)
          else if (findOptions inpkt uriPath).length ≠ pathCount ∧
              (findOptions inpkt uriPath).length ≠ pathCount + 1 then some (.reply missed, w)
          else if (findOptions inpkt uriPath).length = pathCount + 1 then
            scan visit (.reply gone) (.reply missed) (lastOption (findOptions inpkt uriPath)) fuel
              entries w
          else some (.reply missed, w)) s ↔
      ∀ h, Chosen entries inpkt h → h.name ≠ [] ∧ VisitedOnce visit h s := by
  cases hasked : asked inpkt with
  | none =>
    refine iff_of_true ?_ fun h hchosen => absurd hchosen (not_chosen hasked h)
    exact ⟨0, Nat.zero_le _, missed, ⟨s, 0⟩, asked_none hasked _ _, Nat.zero_le _⟩
  | some name =>
    simp only [asked_some hasked]
    rw [(asked_last hasked).2]
    refine (scan_answers_iff hcalls hvain).trans ?_
    constructor
    · rintro hall h ⟨name', hasked', hfind, hL⟩
      cases hasked.symm.trans hasked'
      exact hall h hfind hL
    · exact fun hall h hfind hL => hall h ⟨name, hasked, hfind, hL⟩

theorem getVariable_visited (respond : List UInt8 → UInt8 → Int → Except Err Response)
    (h : LuserEntry) (w : World σ) :
    ∃ response s,
      getVariable lua (fun content code type => .reply (respond content code type)) h w =
        (some (.reply response), { w with lua := s }) := by
  rw [getVariable]
  cases (lua.getglobal w.lua h.name).1.text with
  | none => exact ⟨_, _, rfl⟩
  | some res => exact ⟨_, _, rfl⟩

/-- What a function returns is answered, or the loop goes on. -/
theorem returned_cases (respond : List UInt8 → UInt8 → Int → Except Err Response) (value : Value) :
    let r := returned (fun content code type => .reply (respond content code type)) value
    ((value = .nil ∨ ∃ text ∈ value.text, text.length ≤ maxPayloadSize) ∧
        ∃ response, r = some (.reply response)) ∨
      ((∃ text ∈ value.text, maxPayloadSize < text.length) ∧ r = some .raised) ∨
      (value ≠ .nil ∧ value.text = none ∧ r = none) := by
  have hsized : ∀ (text : List UInt8) (response : Except Err Response),
      (text.length ≤ maxPayloadSize ∧
          (if maxPayloadSize < text.length then some Ending.raised
            else some (.reply response)) = some (.reply response)) ∨
        (maxPayloadSize < text.length ∧
          (if maxPayloadSize < text.length then some Ending.raised
            else some (.reply response)) = some .raised) := by
    intro text response
    by_cases hlong : maxPayloadSize < text.length
    · exact .inr ⟨hlong, if_pos hlong⟩
    · exact .inl ⟨Nat.le_of_not_lt hlong, if_neg hlong⟩
  cases value with
  | nil => exact .inl ⟨.inl rfl, _, rfl⟩
  | number text =>
    obtain ⟨h, hr⟩ | ⟨h, hr⟩ := hsized text (respond text rspcodeContent contenttypeTextPlain)
    · exact .inl ⟨.inr ⟨text, rfl, h⟩, _, hr⟩
    · exact .inr (.inl ⟨⟨text, rfl, h⟩, hr⟩)
  | string text =>
    obtain ⟨h, hr⟩ | ⟨h, hr⟩ := hsized text (respond text rspcodeContent contenttypeTextPlain)
    · exact .inl ⟨.inr ⟨text, rfl, h⟩, _, hr⟩
    · exact .inr (.inl ⟨⟨text, rfl, h⟩, hr⟩)
  | boolean | table | function | other =>
    have hne : ∀ value : Value, value.text = none → returned (fun content code type =>
        .reply (respond content code type)) value = none → value ≠ .nil := by
      rintro value - hr rfl
      cases hr
    exact .inr (.inr ⟨hne _ rfl rfl, rfl, rfl⟩)

theorem postFunction_function (payload : List UInt8) {h : LuserEntry} {w : World σ} {f : Nat}
    (hf : (lua.getglobal w.lua h.name).1 = .function f)
    (respond : List UInt8 → UInt8 → Int → Ending) :
    postFunction lua payload respond h w =
      (returned respond (lua.call (lua.getglobal w.lua h.name).2 f payload).1,
        ⟨(lua.call (lua.getglobal w.lua h.name).2 f payload).2, w.calls + 1⟩) := by
  rw [postFunction, hf]

theorem postFunction_missing {payload : List UInt8} {h : LuserEntry} {w : World σ}
    (hf : ∀ f, (lua.getglobal w.lua h.name).1 ≠ .function f)
    (respond : List UInt8 → UInt8 → Int → Ending) :
    postFunction lua payload respond h w =
      (some (respond [] rspcodeNotFound contenttypeNone),
        ⟨(lua.getglobal w.lua h.name).2, w.calls⟩) := by
  rw [postFunction]
  cases hvalue : (lua.getglobal w.lua h.name).1 with
  | function f => exact absurd hvalue (hf f)
  | nil | boolean | number | string | table | other => rfl

theorem postFunction_calls (payload : List UInt8) (respond : List UInt8 → UInt8 → Int → Ending)
    (h : LuserEntry) (w : World σ) :
    w.calls ≤ (postFunction lua payload respond h w).2.calls ∧
      ((postFunction lua payload respond h w).1 = none →
        w.calls < (postFunction lua payload respond h w).2.calls) := by
  by_cases hf : ∃ f, (lua.getglobal w.lua h.name).1 = .function f
  · obtain ⟨f, hf⟩ := hf
    rw [postFunction_function payload hf]
    exact ⟨Nat.le_succ _, fun _ => Nat.lt_succ_self _⟩
  · rw [postFunction_missing (not_exists.mp hf)]
    refine ⟨Nat.le_refl _, fun hnone => ?_⟩
    cases hnone

theorem variable_answers_iff :
    Answers (entries.length + 2) (handleGetVariable lua entries scratch inpkt id) s ↔
      ∀ h, Chosen entries inpkt h → h.name ≠ [] := by
  refine (asked_answers_iff (fun h w => ?_) fun h w hnone => ?_).trans ?_
  · obtain ⟨response, s', hvisit⟩ := getVariable_visited _ h w
    rw [hvisit]
  · obtain ⟨response, s', hvisit⟩ := getVariable_visited _ h w
    rw [hvisit] at hnone
    cases hnone
  · refine forall_congr' fun h => forall_congr' fun _ => and_iff_left (.inl ?_)
    obtain ⟨response, s', hvisit⟩ := getVariable_visited _ h ⟨s, 0⟩
    exact ⟨response, ⟨s', 0⟩, hvisit, Nat.zero_le _⟩

/-! ## The calls of a function -/

section Function

variable {payload : List UInt8} {h : LuserEntry} {f : Nat}
  {respond : List UInt8 → UInt8 → Int → Except Err Response}

theorem calledOnce_function (hf : (lua.getglobal s h.name).1 = .function f) :
    CalledOnce lua payload h.name s ↔
      let r := lua.call (lua.getglobal s h.name).2 f payload
      r.1 = .nil ∨ (∃ text ∈ r.1.text, text.length ≤ maxPayloadSize) ∨
        (r.1.text = none ∧ ∀ g, (lua.getglobal r.2 h.name).1 ≠ .function g) := by
  refine ⟨fun hall => hall f hf, fun hr f' hf' => ?_⟩
  cases hf.symm.trans hf'
  exact hr

/-- Where the only call gives nothing that can be answered, the function is looked for again. -/
theorem visitedOnce_again (hf : (lua.getglobal s h.name).1 = .function f)
    (hr : returned (fun content code type => Ending.reply (respond content code type))
      (lua.call (lua.getglobal s h.name).2 f payload).1 = none) :
    VisitedOnce (postFunction lua payload fun content code type =>
        .reply (respond content code type)) h s ↔
      ∀ g, (lua.getglobal (lua.call (lua.getglobal s h.name).2 f payload).2 h.name).1 ≠
        .function g := by
  have hf' : (lua.getglobal (World.mk s 0).lua h.name).1 = .function f := hf
  rw [VisitedOnce, postFunction_function payload hf']
  dsimp only
  rw [hr]
  generalize (lua.call (lua.getglobal s h.name).2 f payload).2 = s'
  constructor
  · rintro (⟨response, w, hv, -⟩ | ⟨w, response, w', hv, hv', hcalls⟩) g hg
    · cases hv
    · -- the second call
      obtain rfl : ⟨s', 0 + 1⟩ = w := (Prod.mk.inj hv).2
      rw [postFunction_function payload hg] at hv'
      obtain rfl := (Prod.mk.inj hv').2
      exact Nat.not_succ_le_self 1 hcalls
  · intro hg
    exact .inr ⟨⟨s', 1⟩, _, _, rfl, postFunction_missing hg _, Nat.le_refl _⟩

theorem visitedOnce_iff :
    VisitedOnce (postFunction lua payload fun content code type =>
        .reply (respond content code type)) h s ↔ CalledOnce lua payload h.name s := by
  by_cases hf : ∃ f, (lua.getglobal s h.name).1 = .function f
  swap
  · have hf := not_exists.mp hf
    refine iff_of_true (.inl ⟨_, ⟨_, 0⟩, postFunction_missing hf _, Nat.zero_le _⟩) ?_
    exact fun f hf' => absurd hf' (hf f)
  obtain ⟨f, hf⟩ := hf
  have hvisit := postFunction_function payload (w := ⟨s, 0⟩) hf
    fun content code type => Ending.reply (respond content code type)
  rw [calledOnce_function hf]
  dsimp only at hvisit ⊢
  rcases returned_cases respond (lua.call (lua.getglobal s h.name).2 f payload).1 with
    ⟨hfits, response, hr⟩ | ⟨⟨text, htext, hlong⟩, hr⟩ | ⟨hnil, hnone, hr⟩
  · rw [hr] at hvisit
    exact iff_of_true (.inl ⟨response, _, hvisit, Nat.le_refl 1⟩) (or_assoc.mp (.inl hfits))
  · rw [hr] at hvisit
    refine iff_of_false ?_ ?_
    · rintro (⟨response, w, hv, -⟩ | ⟨w, response, w', hv, -⟩)
      · cases hvisit.symm.trans hv
      · cases hvisit.symm.trans hv
    · rintro (hnil | ⟨text', htext', hfits⟩ | ⟨hnone, -⟩)
      · rw [hnil] at htext
        cases htext
      · cases htext.symm.trans htext'
        omega
      · rw [hnone] at htext
        cases htext
  · rw [visitedOnce_again hf hr, or_iff_right hnil]
    constructor
    · exact fun hg => .inr ⟨hnone, hg⟩
    · rintro (⟨text, htext, -⟩ | ⟨-, hg⟩)
      · rw [hnone] at htext
        cases htext
      · exact hg

end Function

theorem function_answers_iff :
    Answers (entries.length + 2) (handlePostFunction lua entries scratch inpkt id) s ↔
      ∀ h, Chosen entries inpkt h →
        h.name ≠ [] ∧ CalledOnce lua inpkt.payload.bytes h.name s := by
  refine (asked_answers_iff (fun h w => (postFunction_calls _ _ h w).1)
    fun h w => (postFunction_calls _ _ h w).2).trans ?_
  exact forall_congr' fun h => forall_congr' fun _ => and_congr_right fun _ => visitedOnce_iff

/-- A request for a variable or a function is answered once if and only if the entry that is asked
for has a name, and a function gives nothing or a text that fits, or is gone after its only call. -/
theorem handlers_answer_iff (lua : Lua σ) (vars funcs : List LuserEntry) (scratch : Nat)
    (inpkt : Packet) (id : UInt8 × UInt8) (s : σ) :
    (Answers (vars.length + 2) (handleGetVariable lua vars scratch inpkt id) s ↔
      ∀ h, Chosen vars inpkt h → h.name ≠ []) ∧
    (Answers (funcs.length + 2) (handlePostFunction lua funcs scratch inpkt id) s ↔
      ∀ h, Chosen funcs inpkt h →
        h.name ≠ [] ∧ CalledOnce lua inpkt.payload.bytes h.name s) :=
  ⟨variable_answers_iff, function_answers_iff⟩

/-- A function that gives `true`. -/
def trueLua : Lua Unit := ⟨fun s _ => (.function 0, s), fun s _ _ => (.boolean true, s)⟩

def postF : Packet :=
  { hdr := ⟨1, 0, 0, 2, (0, 1)⟩
    tok := .empty
    opts := [⟨uriPath, ⟨bytesOf "v1", by decide⟩⟩, ⟨uriPath, ⟨bytesOf "f", by decide⟩⟩,
      ⟨uriPath, ⟨bytesOf "g", by decide⟩⟩]
    payload := .empty
    numopts := by decide }

theorem g_noNul : (0 : UInt8) ∉ bytesOf "g" := by decide

def gFuncs : List LuserEntry := [⟨true, bytesOf "g", 0, g_noNul⟩]

theorem postF_not_answered :
    ¬Answers (gFuncs.length + 2) (handlePostFunction trueLua gFuncs 4 postF (0, 1)) () := by
  intro h
  have hchosen : Chosen gFuncs postF ⟨true, bytesOf "g", 0, g_noNul⟩ := ⟨bytesOf "g", rfl, rfl, rfl⟩
  obtain hnil | ⟨text, htext, -⟩ | ⟨-, hnot⟩ := (function_answers_iff.mp h _ hchosen).2 0 rfl
  · cases hnil
  · cases htext
  · exact hnot 0 rfl

end NodeMcu.Coap.Answering
