import Mathlib.Data.List.Range
import Mathlib.Logic.Function.Basic
import NodeMcu.Gpio.Hooks
import NodeMcu.Lua.References

namespace NodeMcu.Gpio.Trig

open NodeMcu.Lib.Run NodeMcu.Lua.References NodeMcu.Gpio.Hooks

variable {α : Type}

/-! ## Pins with callbacks -/

def gpioPinNum : Nat := 13

abbrev PlatformGpioExists (pin : Nat) : Prop := pin < gpioPinNum

def gpioPinIntrDisable : Nat := 0
def gpioPinIntrPosedge : Nat := 1
def gpioPinIntrNegedge : Nat := 2
def gpioPinIntrAnyedge : Nat := 3
def gpioPinIntrLolevel : Nat := 4
def gpioPinIntrHilevel : Nat := 5

abbrev InterruptTypeIsLevel (x : Nat) : Prop := gpioPinIntrLolevel ≤ x

inductive Opt
  | none | up | down | both | low | high
  deriving DecidableEq

def optsType : Opt → Nat
  | .none => gpioPinIntrDisable
  | .up => gpioPinIntrPosedge
  | .down => gpioPinIntrNegedge
  | .both => gpioPinIntrAnyedge
  | .low => gpioPinIntrLolevel
  | .high => gpioPinIntrHilevel

/-- The third argument of `trig`. -/
inductive Arg (α : Type)
  | absent
  | function (f : α)
  | other

def Arg.isAbsent : Arg α → Bool
  | absent => true
  | _ => false

def Arg.isOther : Arg α → Bool
  | other => true
  | _ => false

inductive Mode
  | input | output | opendrain | interrupt
  deriving DecidableEq

/-- The registry, the callbacks and interrupt types of the pins, the interrupt types of their pads,
what has been posted to the task, and the pin whose callback runs. -/
structure Pins (α : Type) where
  registry : Table α
  gpioCbRef : Nat → Int
  pinIntType : Nat → Nat
  intrState : Nat → Nat
  queue : List Nat
  running : Option Nat

def platformGpioIntrInit (pin type : Nat) (s : Pins α) : Pins α :=
  if PlatformGpioExists pin then
    { s with
      pinIntType := Function.update s.pinIntType pin type
      intrState := Function.update s.intrState pin type }
  else s

/-- A reference is given back, unless there is none. -/
def unref (ref : Int) (registry : Table α) : Table α :=
  if ref ≠ luaNoref then luaLUnref ref registry else registry

/-- What is left, and whether no error is thrown. -/
def lgpioTrig (objlen : Table α → Nat) (pin : Nat) (opt : Opt) (arg : Arg α) (s : Pins α) :
    Pins α × Bool :=
  if ¬ (PlatformGpioExists pin ∧ 0 < pin) then (s, false)
  else
    let oldPinRef := s.gpioCbRef pin
    let type := optsType opt
    if type = gpioPinIntrDisable then
      (platformGpioIntrInit pin type
        { s with
          gpioCbRef := Function.update s.gpioCbRef pin luaNoref
          registry := unref oldPinRef s.registry }, true)
    else if arg.isAbsent ∧ oldPinRef ≠ luaNoref then (platformGpioIntrInit pin type s, true)
    else
      match arg with
      | .function f =>
        let taken := luaLRef objlen (some f) s.registry
        (platformGpioIntrInit pin type
          { s with
            gpioCbRef := Function.update s.gpioCbRef pin taken.1
            registry := unref oldPinRef taken.2 }, true)
      | _ => ({ s with registry := unref oldPinRef s.registry }, false)

def setGpioNoInterrupt (pin : Nat) (s : Pins α) : Pins α :=
  { s with
    pinIntType := Function.update s.pinIntType pin gpioPinIntrDisable
    intrState := Function.update s.intrState pin gpioPinIntrDisable }

def setGpioInterrupt (pin : Nat) (s : Pins α) : Pins α :=
  { s with intrState := Function.update s.intrState pin gpioPinIntrDisable }

def platformGpioMode (pin : Nat) (mode : Mode) (s : Pins α) : Pins α :=
  if pin = 0 then s
  else
    match mode with
    | .interrupt => setGpioInterrupt pin s
    | _ => setGpioNoInterrupt pin s

def lgpioMode (pin : Nat) (mode : Mode) (s : Pins α) : Pins α × Bool :=
  if ¬ (PlatformGpioExists pin ∧ (mode ≠ .interrupt ∨ 0 < pin)) then (s, false)
  else
    let cleared :=
      if mode ≠ .interrupt then
        if s.gpioCbRef pin ≠ luaNoref then
          { s with
            registry := luaLUnref (s.gpioCbRef pin) s.registry
            gpioCbRef := Function.update s.gpioCbRef pin luaNoref }
        else s
      else s
    (platformGpioMode pin mode cleared, true)

/-- What the interrupt handler does for a pin. -/
def dispatch (pin : Nat) (level accepted : Bool) (s : Pins α) : Pins α :=
  if s.pinIntType pin ≠ 0 then
    { s with
      intrState := Function.update s.intrState pin gpioPinIntrDisable
      queue := if accepted then s.queue ++ [param pin level] else s.queue }
  else s

/-- The task as far as the call of the callback. -/
def callbackBegin (s : Pins α) : Pins α :=
  match s.running, s.queue with
  | none, param :: queue =>
    let pin := param >>> 1
    let s := { s with queue }
    if s.gpioCbRef pin ≠ luaNoref then
      let s :=
        if ¬ InterruptTypeIsLevel (s.pinIntType pin) then
          platformGpioIntrInit pin (s.pinIntType pin) s
        else s
      { s with running := some pin }
    else s
  | _, _ => s

/-- What the callback is called with. -/
def called (s : Pins α) : List (Slot α × Bool) :=
  match s.running, s.queue with
  | none, param :: _ =>
    let pin := param >>> 1
    if s.gpioCbRef pin ≠ luaNoref then
      [(s.registry.get (s.gpioCbRef pin).toNat, param.testBit 0)]
    else []
  | _, _ => []

/-- The task from the return of the callback on. -/
def callbackEnd (s : Pins α) : Pins α :=
  match s.running with
  | some pin =>
    let s := { s with running := none }
    if InterruptTypeIsLevel (s.pinIntType pin) then
      platformGpioIntrInit pin (s.pinIntType pin) s
    else s
  | none => s

/-! ### Runs -/

/-- The pins, the functions that they have been given, and the references of other modules. -/
structure System (α : Type) where
  pins : Pins α
  given : Nat → Option α
  others : List (Nat × α)

/-- Calls from Lua, whether from a callback or not, interrupts and the two halves of the task. -/
inductive Event (α : Type)
  | trig (pin : Nat) (opt : Opt) (arg : Arg α)
  | mode (pin : Nat) (mode : Mode)
  | taken (a : α)
  | released (i : Nat)
  | interrupt (pin : Nat) (level accepted : Bool)
  | callbackBegin
  | callbackEnd

abbrev InterruptPin (pin : Nat) : Prop := PlatformGpioExists pin ∧ 0 < pin

/-- The function that a pin has after `trig`. -/
def givenTrig (pin : Nat) (opt : Opt) (arg : Arg α) (given : Nat → Option α) : Nat → Option α :=
  if InterruptPin pin then
    if opt = .none then Function.update given pin none
    else
      match arg with
      | .function f => Function.update given pin (some f)
      | _ => given
  else given

def givenMode (pin : Nat) (mode : Mode) (given : Nat → Option α) : Nat → Option α :=
  if PlatformGpioExists pin ∧ mode ≠ .interrupt then Function.update given pin none else given

def step (objlen : Table α → Nat) (s : System α) : Event α → System α
  | .trig pin opt arg =>
    { s with
      pins := (lgpioTrig objlen pin opt arg s.pins).1
      given := givenTrig pin opt arg s.given }
  | .mode pin mode =>
    { s with pins := (lgpioMode pin mode s.pins).1, given := givenMode pin mode s.given }
  | .taken a =>
    let taken := luaLRef objlen (some a) s.pins.registry
    { s with
      pins := { s.pins with registry := taken.2 }
      others := (taken.1.toNat, a) :: s.others }
  | .released i =>
    match s.others[i]? with
    | some p =>
      { s with
        pins := { s.pins with registry := luaLUnref p.1 s.pins.registry }
        others := s.others.eraseIdx i }
    | none => s
  | .interrupt pin level accepted => { s with pins := dispatch pin level accepted s.pins }
  | .callbackBegin => { s with pins := Trig.callbackBegin s.pins }
  | .callbackEnd => { s with pins := Trig.callbackEnd s.pins }

def start : System α :=
  ⟨⟨.empty, fun _ => luaNoref, fun _ => 0, fun _ => 0, [], none⟩, fun _ => none, []⟩

/-- The task is going to enable the interrupt of the pin. -/
def Waiting (s : Pins α) (pin : Nat) : Prop :=
  (∃ m ∈ s.queue, m >>> 1 = pin) ∨ s.running = some pin ∧ InterruptTypeIsLevel (s.pinIntType pin)

/-- A pin without a callback has no interrupt, and one with a callback has a reference to it, and
its interrupt is enabled or is going to be. -/
inductive PinSound (pin : Nat) (waiting : Prop) : Option α → Int → Nat → Nat → Prop
  | free : PinSound pin waiting none luaNoref 0 0
  | armed {f : α} {n type state : Nat} (hpin : InterruptPin pin) (htype : type ≠ 0)
      (hstate : state = type ∨ state = 0 ∧ waiting) : PinSound pin waiting (some f) n type state

/-- The reference of a pin, with its function. -/
def entry (s : System α) (pin : Nat) : Option (Nat × α) :=
  (s.given pin).map fun f => ((s.pins.gpioCbRef pin).toNat, f)

/-- The references of all pins. -/
def owned (s : System α) : List (Nat × α) := (List.range gpioPinNum).filterMap (entry s)

/-- The registry holds the references of the pins and of the other modules, and no more. -/
structure Sound (s : System α) : Prop where
  refs : Holds s.pins.registry (owned s ++ s.others)
  pin (p : Nat) : PinSound p (Waiting s.pins p) (s.given p) (s.pins.gpioCbRef p)
    (s.pins.pinIntType p) (s.pins.intrState p)

/-- No pin with a callback is given what is none, nor set to interrupts while its interrupt is not
going to be enabled, and what is posted for it is accepted unless the task is going to run. -/
def Proper (s : System α) : Event α → Prop
  | .trig pin opt arg =>
    InterruptPin pin → opt ≠ .none → arg.isOther → s.given pin = none
  | .mode pin mode =>
    InterruptPin pin → mode = .interrupt → s.given pin = none ∨ Waiting s.pins pin
  | .interrupt pin _ accepted =>
    accepted = false → s.given pin = none ∨ Waiting s.pins pin
  | _ => True

instance (s : Pins α) (pin : Nat) : Decidable (Waiting s pin) :=
  inferInstanceAs (Decidable ((∃ m ∈ s.queue, m >>> 1 = pin) ∨ _ ∧ _))

instance (s : System α) : (e : Event α) → Decidable (Proper s e)
  | .trig .. => inferInstanceAs (Decidable (_ → _ → _ → _ = none))
  | .mode .. => inferInstanceAs (Decidable (_ → _ → _ = none ∨ _))
  | .interrupt .. => inferInstanceAs (Decidable (_ → _ = none ∨ _))
  | .taken _ | .released _ | .callbackBegin | .callbackEnd => isTrue trivial

theorem param_pin (pin : Nat) (level : Bool) : param pin level >>> 1 = pin := by
  rw [param, Nat.shiftRight_eq_div_pow, Nat.shiftLeft_eq]
  cases level with
  | false => simp
  | true =>
    rw [Bool.toNat_true]
    omega

section Sound

variable {s s' : System α} {p : Nat}

theorem PinSound.mono {waiting waiting' : Prop} {given : Option α} {ref : Int} {type state : Nat}
    (h : PinSound p waiting given ref type state) (hw : waiting → waiting') :
    PinSound p waiting' given ref type state := by
  cases h with
  | free => exact .free
  | armed hpin htype hstate =>
    exact .armed hpin htype (hstate.imp_right fun hs => ⟨hs.1, hw hs.2⟩)

theorem Waiting.congr {t t' : Pins α} (h : Waiting t p)
    (hqueue : ∀ m ∈ t.queue, m >>> 1 = p → m ∈ t'.queue)
    (hrunning : t.running = some p → t'.running = some p)
    (htype : t'.pinIntType p = t.pinIntType p) : Waiting t' p := by
  obtain ⟨m, hm, hmp⟩ | ⟨hrun, hlevel⟩ := h
  · exact .inl ⟨m, hqueue m hm hmp, hmp⟩
  · exact .inr ⟨hrunning hrun, htype ▸ hlevel⟩

/-- A pin without a callback. -/
structure Free (s : System α) (p : Nat) : Prop where
  given : s.given p = none
  ref : s.pins.gpioCbRef p = luaNoref
  type : s.pins.pinIntType p = 0
  state : s.pins.intrState p = 0

/-- A pin with a callback. -/
structure Armed (s : System α) (p : Nat) (f : α) (n : Nat) : Prop where
  given : s.given p = some f
  ref : s.pins.gpioCbRef p = n
  pin : InterruptPin p
  type : s.pins.pinIntType p ≠ 0
  state : s.pins.intrState p = s.pins.pinIntType p ∨ s.pins.intrState p = 0 ∧ Waiting s.pins p

theorem Sound.free_or_armed (hs : Sound s) (p : Nat) : Free s p ∨ ∃ f n, Armed s p f n := by
  have h := hs.pin p
  generalize hgiven : s.given p = given at h
  generalize href : s.pins.gpioCbRef p = ref at h
  generalize htype : s.pins.pinIntType p = type at h
  generalize hstate : s.pins.intrState p = state at h
  cases h with
  | free => exact .inl ⟨hgiven, href, htype, hstate⟩
  | @armed f n _ _ hpin hne hst =>
    exact .inr ⟨f, n, hgiven, href, hpin, htype ▸ hne, by rw [htype, hstate]; exact hst⟩

theorem Armed.ref_ne {f : α} {n : Nat} (h : Armed s p f n) : s.pins.gpioCbRef p ≠ luaNoref := by
  rw [h.ref]
  nofun

theorem Armed.entry_eq {f : α} {n : Nat} (h : Armed s p f n) : entry s p = some (n, f) := by
  rw [entry, h.given, h.ref]
  rfl

theorem Free.entry_eq (h : Free s p) : entry s p = none := by
  rw [entry, h.given]
  rfl

/-- The references of the other pins. -/
def rest (s : System α) (p : Nat) : List (Nat × α) :=
  ((List.range gpioPinNum).erase p).filterMap (entry s)

theorem owned_perm (s : System α) (hp : PlatformGpioExists p) :
    (owned s).Perm ((entry s p).toList ++ rest s p) := by
  have hsplit := (List.perm_cons_erase (List.mem_range.mpr hp)).filterMap (entry s)
  rw [List.filterMap_cons] at hsplit
  cases hentry : entry s p with
  | none => rw [hentry] at hsplit; exact hsplit
  | some e => rw [hentry] at hsplit; exact hsplit

theorem rest_congr (h : ∀ q, q ≠ p → entry s' q = entry s q) : rest s' p = rest s p := by
  refine List.filterMap_congr fun q hq => h q ?_
  exact ((List.nodup_range.mem_erase_iff).mp hq).1

theorem Sound.refs_at (hs : Sound s) (hp : PlatformGpioExists p) :
    Holds s.pins.registry ((entry s p).toList ++ (rest s p ++ s.others)) := by
  refine hs.refs.perm ?_
  rw [← List.append_assoc]
  exact (owned_perm s hp).append_right _

/-- Nothing but a pin has changed. -/
structure Frame (p : Nat) (s s' : System α) : Prop where
  given (q : Nat) (h : q ≠ p) : s'.given q = s.given q
  ref (q : Nat) (h : q ≠ p) : s'.pins.gpioCbRef q = s.pins.gpioCbRef q
  type (q : Nat) (h : q ≠ p) : s'.pins.pinIntType q = s.pins.pinIntType q
  state (q : Nat) (h : q ≠ p) : s'.pins.intrState q = s.pins.intrState q
  waiting (q : Nat) (h : q ≠ p) (hw : Waiting s.pins q) : Waiting s'.pins q
  others : s'.others = s.others

theorem Frame.rest_eq (h : Frame p s s') : rest s' p = rest s p :=
  rest_congr fun q hq => by rw [entry, entry, h.given q hq, h.ref q hq]

theorem Frame.sound (h : Frame p s s') (hs : Sound s) (hp : PlatformGpioExists p)
    (hrefs : Holds s'.pins.registry ((entry s' p).toList ++ (rest s p ++ s.others)))
    (hpin : PinSound p (Waiting s'.pins p) (s'.given p) (s'.pins.gpioCbRef p)
      (s'.pins.pinIntType p) (s'.pins.intrState p)) : Sound s' where
  refs := by
    refine hrefs.perm ?_
    rw [← h.rest_eq, ← h.others, ← List.append_assoc]
    exact ((owned_perm s' hp).append_right _).symm
  pin q := by
    by_cases hq : q = p
    · subst hq
      exact hpin
    · rw [h.given q hq, h.ref q hq, h.type q hq, h.state q hq]
      exact (hs.pin q).mono (h.waiting q hq)

/-- The reference of a pin is given back. -/
theorem Sound.unref (hs : Sound s) {registry : Table α} {held : List (Nat × α)}
    (h : Holds registry ((entry s p).toList ++ held)) :
    Holds (Trig.unref (s.pins.gpioCbRef p) registry) held := by
  obtain hfree | ⟨f, n, harmed⟩ := hs.free_or_armed p
  · rw [hfree.entry_eq] at h
    rw [Trig.unref, if_neg (not_not.mpr hfree.ref)]
    exact h
  · rw [harmed.entry_eq] at h
    rw [Trig.unref, if_pos harmed.ref_ne, harmed.ref]
    exact h.unref.1

/-- The interrupt of a pin is set, with its callback. -/
theorem Sound.init (hs : Sound s) (hp : PlatformGpioExists p) {ref : Nat → Int}
    {given : Nat → Option α} {registry : Table α} {type : Nat}
    (href : ∀ q, q ≠ p → ref q = s.pins.gpioCbRef q) (hgiven : ∀ q, q ≠ p → given q = s.given q)
    (hrefs : Holds registry
      (((given p).map fun f => ((ref p).toNat, f)).toList ++ (rest s p ++ s.others)))
    (hpin : PinSound p False (given p) (ref p) type type) :
    Sound { s with
      pins := platformGpioIntrInit p type { s.pins with gpioCbRef := ref, registry }
      given } := by
  rw [platformGpioIntrInit, if_pos hp]
  refine Frame.sound (p := p) ⟨hgiven, href, fun q hq => Function.update_of_ne hq _ _,
    fun q hq => Function.update_of_ne hq _ _, fun q hq hw => ?_, rfl⟩ hs hp hrefs ?_
  · exact hw.congr (fun _ hm _ => hm) id (Function.update_of_ne hq _ _)
  · simp only [Function.update_self]
    exact hpin.mono False.elim

theorem optsType_ne {opt : Opt} (h : opt ≠ .none) : optsType opt ≠ gpioPinIntrDisable := by
  cases opt with
  | none => exact absurd rfl h
  | up | down | both | low | high => nofun

theorem givenTrig_other {opt : Opt} {arg : Arg α} (hpin : InterruptPin p) (hopt : opt ≠ .none)
    (harg : ∀ f, arg ≠ .function f) (given : Nat → Option α) :
    givenTrig p opt arg given = given := by
  rw [givenTrig.eq_def, if_pos hpin, if_neg hopt]
  cases arg with
  | function f => exact absurd rfl (harg f)
  | absent | other => rfl

theorem givenTrig_function {opt : Opt} (hpin : InterruptPin p) (hopt : opt ≠ .none) (f : α)
    (given : Nat → Option α) :
    givenTrig p opt (.function f) given = Function.update given p (some f) := by
  rw [givenTrig.eq_def, if_pos hpin, if_neg hopt]

theorem sound_trig_iff {objlen : Table α → Nat} (hlen : ∀ t : Table α, t.Border (objlen t))
    (hs : Sound s) (opt : Opt) (arg : Arg α) :
    Sound (step objlen s (.trig p opt arg)) ↔ Proper s (.trig p opt arg) := by
  rw [step, lgpioTrig.eq_def, Proper]
  by_cases hpin : InterruptPin p
  swap
  · rw [if_pos hpin, givenTrig.eq_def, if_neg hpin]
    exact iff_of_true hs fun h => absurd h hpin
  rw [if_neg (not_not.mpr hpin)]
  by_cases hopt : opt = .none
  · subst hopt
    refine iff_of_true ?_ fun _ h => absurd rfl h
    have hrefs := hs.unref (hs.refs_at hpin.1)
    rw [givenTrig.eq_def, if_pos hpin, if_pos rfl]
    refine hs.init hpin.1 (fun q hq => Function.update_of_ne hq _ _)
      (fun q hq => Function.update_of_ne hq _ _) ?_ ?_
    · simp only [Function.update_self]
      exact hrefs
    · simp only [Function.update_self]
      exact .free
  have htype := optsType_ne hopt
  rw [if_neg htype]
  cases arg with
  | function f =>
    refine iff_of_true ?_ fun _ _ h => nomatch h
    obtain ⟨n, hn, hholds, -⟩ := (hs.refs_at hpin.1).ref hlen f
    have hrefs := hs.unref (hholds.perm List.perm_middle.symm)
    rw [givenTrig_function hpin hopt, if_neg fun h => nomatch h.1]
    dsimp only
    rw [hn]
    refine hs.init hpin.1 (fun q hq => Function.update_of_ne hq _ _)
      (fun q hq => Function.update_of_ne hq _ _) ?_ ?_
    · simp only [Function.update_self]
      exact hrefs
    · simp only [Function.update_self]
      exact .armed hpin htype (.inl rfl)
  | absent =>
    refine iff_of_true ?_ fun _ _ h => nomatch h
    rw [givenTrig_other hpin hopt nofun]
    obtain hfree | ⟨f, n, harmed⟩ := hs.free_or_armed p
    · rw [if_neg fun h => h.2 hfree.ref, unref, if_neg (not_not.mpr hfree.ref)]
      exact hs
    · rw [if_pos ⟨rfl, harmed.ref_ne⟩]
      refine hs.init hpin.1 (fun _ _ => rfl) (fun _ _ => rfl) (hs.refs_at hpin.1) ?_
      rw [harmed.given, harmed.ref]
      exact .armed hpin htype (.inl rfl)
  | other =>
    rw [givenTrig_other hpin hopt nofun, if_neg fun h => nomatch h.1]
    obtain hfree | ⟨f, n, harmed⟩ := hs.free_or_armed p
    · rw [unref, if_neg (not_not.mpr hfree.ref)]
      exact iff_of_true hs fun _ _ _ => hfree.given
    · rw [unref, if_pos harmed.ref_ne, harmed.ref]
      have hrefs := hs.refs_at hpin.1
      rw [harmed.entry_eq] at hrefs
      refine iff_of_false (fun hbad => ?_) fun h => ?_
      · refine hrefs.get_unref f (hbad.refs.get (List.mem_append_left _ ?_))
        exact List.mem_filterMap.mpr ⟨p, List.mem_range.mpr hpin.1, harmed.entry_eq⟩
      · have hnone := h hpin hopt rfl
        rw [harmed.given] at hnone
        cases hnone

theorem Armed.given_ne {f : α} {n : Nat} (h : Armed s p f n) : s.given p ≠ none := by
  rw [h.given]
  nofun

/-- Where the interrupt of a pin with a callback is disabled, it is going to be enabled. -/
theorem Sound.waiting (hs : Sound s) (hgiven : s.given p ≠ none) (hstate : s.pins.intrState p = 0) :
    Waiting s.pins p := by
  obtain hfree | ⟨f, n, harmed⟩ := hs.free_or_armed p
  · exact absurd hfree.given hgiven
  · obtain heq | ⟨-, hw⟩ := harmed.state
    · exact absurd (heq.symm.trans hstate) harmed.type
    · exact hw

theorem sound_mode_iff {objlen : Table α → Nat} (hs : Sound s) (mode : Mode) :
    Sound (step objlen s (.mode p mode)) ↔ Proper s (.mode p mode) := by
  rw [step, lgpioMode, givenMode, Proper]
  by_cases hinterrupt : mode = .interrupt
  · subst hinterrupt
    simp only [ne_eq, not_true_eq_false, false_or, and_false, if_false, forall_const]
    by_cases hpin : InterruptPin p
    swap
    · rw [if_pos hpin]
      exact iff_of_true hs fun h => absurd h hpin
    rw [if_neg (not_not.mpr hpin), platformGpioMode, if_neg (Nat.ne_of_gt hpin.2)]
    obtain hfree | ⟨f, n, harmed⟩ := hs.free_or_armed p
    · refine iff_of_true ?_ fun _ => .inl hfree.given
      refine Frame.sound (s := s) (p := p) ⟨fun _ _ => rfl, fun _ _ => rfl, fun _ _ => rfl,
        fun q hq => Function.update_of_ne hq _ _, fun _ _ hw => hw, rfl⟩ hs hpin.1
        (hs.refs_at hpin.1) ?_
      simp only [setGpioInterrupt, Function.update_self, hfree.given, hfree.ref, hfree.type]
      exact .free
    · constructor
      · intro hsound _
        exact .inr (hsound.waiting harmed.given_ne (Function.update_self ..))
      · intro h
        have hw := (h hpin).resolve_left harmed.given_ne
        refine Frame.sound (s := s) (p := p) ⟨fun _ _ => rfl, fun _ _ => rfl, fun _ _ => rfl,
          fun q hq => Function.update_of_ne hq _ _, fun _ _ hw => hw, rfl⟩ hs hpin.1
          (hs.refs_at hpin.1) ?_
        simp only [setGpioInterrupt, Function.update_self, harmed.given, harmed.ref]
        exact .armed hpin harmed.type (.inr ⟨rfl, hw⟩)
  · refine iff_of_true ?_ fun _ h => absurd h hinterrupt
    by_cases hp : PlatformGpioExists p
    swap
    · rw [if_pos fun h => hp h.1, if_neg fun h => hp h.1]
      exact hs
    have hboth : PlatformGpioExists p ∧ mode ≠ .interrupt := ⟨hp, hinterrupt⟩
    rw [if_neg (not_not.mpr ⟨hp, .inl hinterrupt⟩), if_pos hboth]
    dsimp only
    rw [if_pos hinterrupt]
    by_cases hzero : p = 0
    · obtain hfree | ⟨f, n, harmed⟩ := hs.free_or_armed p
      · rw [if_neg (not_not.mpr hfree.ref), platformGpioMode.eq_def, if_pos hzero,
          Function.update_eq_self_iff.mpr hfree.given.symm]
        exact hs
      · exact absurd hzero (Nat.ne_of_gt harmed.pin.2)
    · have hmode (t : Pins α) : platformGpioMode p mode t = setGpioNoInterrupt p t := by
        rw [platformGpioMode.eq_def, if_neg hzero]
        cases mode with
        | interrupt => exact absurd rfl hinterrupt
        | input | output | opendrain => rfl
      have hrefs := hs.unref (hs.refs_at hp)
      rw [hmode]
      split_ifs with href
      · refine Frame.sound (p := p) ⟨fun q hq => Function.update_of_ne hq _ _,
          fun q hq => Function.update_of_ne hq _ _, fun q hq => Function.update_of_ne hq _ _,
          fun q hq => Function.update_of_ne hq _ _, fun q hq hw =>
            hw.congr (fun _ hm _ => hm) id (Function.update_of_ne hq _ _), rfl⟩ hs hp ?_ ?_
        · rw [unref, if_pos href] at hrefs
          simp only [entry, Function.update_self]
          exact hrefs
        · simp only [setGpioNoInterrupt, Function.update_self]
          exact .free
      · refine Frame.sound (p := p) ⟨fun q hq => Function.update_of_ne hq _ _,
          fun _ _ => rfl, fun q hq => Function.update_of_ne hq _ _,
          fun q hq => Function.update_of_ne hq _ _, fun q hq hw =>
            hw.congr (fun _ hm _ => hm) id (Function.update_of_ne hq _ _), rfl⟩ hs hp ?_ ?_
        · rw [unref, if_neg href] at hrefs
          simp only [entry, Function.update_self]
          exact hrefs
        · simp only [setGpioNoInterrupt, Function.update_self, not_not.mp href]
          exact .free

theorem sound_interrupt_iff {objlen : Table α → Nat} (hs : Sound s) (level accepted : Bool) :
    Sound (step objlen s (.interrupt p level accepted)) ↔
      Proper s (.interrupt p level accepted) := by
  rw [step, dispatch, Proper]
  obtain hfree | ⟨f, n, harmed⟩ := hs.free_or_armed p
  · rw [if_neg (not_not.mpr hfree.type)]
    exact iff_of_true hs fun _ => .inl hfree.given
  rw [if_pos harmed.type]
  constructor
  · rintro hsound rfl
    exact .inr (hsound.waiting harmed.given_ne (Function.update_self ..))
  · intro h
    refine Frame.sound (s := s) (p := p) ⟨fun _ _ => rfl, fun _ _ => rfl, fun _ _ => rfl,
      fun q hq => Function.update_of_ne hq _ _, fun q _ hw => ?_, rfl⟩ hs harmed.pin.1
      (hs.refs_at harmed.pin.1) ?_
    · refine hw.congr (fun m hm _ => ?_) id rfl
      cases accepted with
      | true => exact List.mem_append_left _ hm
      | false => exact hm
    · simp only [Function.update_self, harmed.given, harmed.ref]
      refine .armed harmed.pin harmed.type (.inr ⟨rfl, ?_⟩)
      cases accepted with
      | true => exact .inl ⟨param p level, List.mem_append_right _ (List.mem_singleton_self _),
          param_pin p level⟩
      | false => exact (h rfl).resolve_left harmed.given_ne

theorem Sound.callbackBegin (hs : Sound s) :
    Sound { s with pins := Trig.callbackBegin s.pins } := by
  rw [Trig.callbackBegin.eq_def]
  cases hrunning : s.pins.running with
  | some pin => exact hs
  | none =>
    cases hqueue : s.pins.queue with
    | nil => exact hs
    | cons m queue =>
      dsimp only
      have hwaiting {q : Nat} (hq : q ≠ m >>> 1) (hw : Waiting s.pins q) :
          ∃ k ∈ queue, k >>> 1 = q := by
        obtain ⟨k, hk, hkq⟩ | ⟨hrun, -⟩ := hw
        · rw [hqueue, List.mem_cons] at hk
          obtain rfl | hk := hk
          · exact absurd hkq.symm hq
          · exact ⟨k, hk, hkq⟩
        · rw [hrunning] at hrun
          cases hrun
      obtain hfree | ⟨f, n, harmed⟩ := hs.free_or_armed (m >>> 1)
      · rw [if_neg (not_not.mpr hfree.ref)]
        refine ⟨hs.refs, fun q => ?_⟩
        by_cases hq : q = m >>> 1
        · subst hq
          simp only [hfree.given, hfree.ref, hfree.type, hfree.state]
          exact .free
        · exact (hs.pin q).mono fun hw => .inl (hwaiting hq hw)
      · have hp := harmed.pin.1
        rw [if_pos harmed.ref_ne]
        split_ifs with hlevel
        · refine Frame.sound (s := s) (p := m >>> 1) ⟨fun _ _ => rfl, fun _ _ => rfl,
            fun _ _ => rfl, fun _ _ => rfl, fun q hq hw => .inl (hwaiting hq hw), rfl⟩ hs hp
            (hs.refs_at hp) ?_
          simp only [harmed.given, harmed.ref]
          exact .armed harmed.pin harmed.type
            (harmed.state.imp_right fun h => ⟨h.1, .inr ⟨rfl, hlevel⟩⟩)
        · rw [platformGpioIntrInit, if_pos hp]
          refine Frame.sound (s := s) (p := m >>> 1) ⟨fun _ _ => rfl, fun _ _ => rfl,
            fun q hq => Function.update_of_ne hq _ _, fun q hq => Function.update_of_ne hq _ _,
            fun q hq hw => .inl (hwaiting hq hw), rfl⟩ hs hp (hs.refs_at hp) ?_
          simp only [Function.update_self, harmed.given, harmed.ref]
          exact .armed harmed.pin harmed.type (.inl rfl)

theorem Sound.callbackEnd (hs : Sound s) :
    Sound { s with pins := Trig.callbackEnd s.pins } := by
  rw [Trig.callbackEnd.eq_def]
  cases hrunning : s.pins.running with
  | none => exact hs
  | some p =>
    dsimp only
    have hwaiting {q : Nat} (hw : Waiting s.pins q)
        (hq : q ≠ p ∨ ¬ InterruptTypeIsLevel (s.pins.pinIntType p)) :
        ∃ k ∈ s.pins.queue, k >>> 1 = q := by
      obtain hqueued | ⟨hrun, hlevel⟩ := hw
      · exact hqueued
      · rw [hrunning, Option.some.injEq] at hrun
        subst hrun
        exact hq.elim (absurd rfl) (absurd hlevel)
    split_ifs with hlevel
    · obtain hfree | ⟨f, n, harmed⟩ := hs.free_or_armed p
      · rw [hfree.type] at hlevel
        exact absurd hlevel (by decide)
      · have hp := harmed.pin.1
        rw [platformGpioIntrInit, if_pos hp]
        refine Frame.sound (s := s) (p := p) ⟨fun _ _ => rfl, fun _ _ => rfl,
          fun q hq => Function.update_of_ne hq _ _, fun q hq => Function.update_of_ne hq _ _,
          fun q hq hw => .inl (hwaiting hw (.inl hq)), rfl⟩ hs hp (hs.refs_at hp) ?_
        simp only [Function.update_self, harmed.given, harmed.ref]
        exact .armed harmed.pin harmed.type (.inl rfl)
    · exact ⟨hs.refs, fun q => (hs.pin q).mono fun hw => .inl (hwaiting hw (.inr hlevel))⟩

theorem Sound.taken {objlen : Table α → Nat} (hlen : ∀ t : Table α, t.Border (objlen t))
    (hs : Sound s) (a : α) : Sound (step objlen s (.taken a)) := by
  obtain ⟨n, hn, hholds, -⟩ := hs.refs.ref hlen a
  rw [step, hn, Int.toNat_natCast]
  exact ⟨hholds.perm List.perm_middle.symm, hs.pin⟩

theorem Sound.released {objlen : Table α → Nat} (hs : Sound s) (i : Nat) :
    Sound (step objlen s (.released i)) := by
  rw [step.eq_def]
  dsimp only
  cases hget : s.others[i]? with
  | none => exact hs
  | some p =>
    obtain ⟨hi, rfl⟩ := List.getElem?_eq_some_iff.mp hget
    have hperm : (owned s ++ s.others).Perm
        (s.others[i] :: (owned s ++ s.others.eraseIdx i)) := by
      refine ((List.Perm.append_left _ ?_).trans List.perm_middle)
      rw [List.eraseIdx_eq_take_drop_succ]
      refine .trans (.of_eq ?_) List.perm_middle
      rw [List.getElem_cons_drop, List.take_append_drop]
    exact ⟨(hs.refs.perm hperm).unref.1, hs.pin⟩

theorem sound_step_iff {objlen : Table α → Nat} (hlen : ∀ t : Table α, t.Border (objlen t))
    (hs : Sound s) (e : Event α) : Sound (step objlen s e) ↔ Proper s e := by
  cases e with
  | trig pin opt arg => exact sound_trig_iff hlen hs opt arg
  | mode pin mode => exact sound_mode_iff hs mode
  | taken a => exact iff_of_true (hs.taken hlen a) trivial
  | released i => exact iff_of_true (hs.released i) trivial
  | interrupt pin level accepted => exact sound_interrupt_iff hs level accepted
  | callbackBegin => exact iff_of_true hs.callbackBegin trivial
  | callbackEnd => exact iff_of_true hs.callbackEnd trivial

/-- What the callbacks are called with in a step. -/
def calledIn (s : System α) : Event α → List (Slot α × Bool)
  | .callbackBegin => called s.pins
  | _ => []

/-- What is due to be called: the function that the pin of the message has been given last. -/
def dueIn (s : System α) : Event α → List (Slot α × Bool)
  | .callbackBegin =>
    match s.pins.running, s.pins.queue with
    | none, param :: _ =>
      ((s.given (param >>> 1)).map fun f => (Slot.value f, param.testBit 0)).toList
    | _, _ => []
  | _ => []

theorem Sound.calledIn_eq (hs : Sound s) (e : Event α) : calledIn s e = dueIn s e := by
  cases e with
  | callbackBegin =>
    rw [calledIn, called.eq_def, dueIn.eq_def]
    cases hrunning : s.pins.running with
    | some pin => rfl
    | none =>
      cases hqueue : s.pins.queue with
      | nil => rfl
      | cons m queue =>
        dsimp only
        obtain hfree | ⟨f, n, harmed⟩ := hs.free_or_armed (m >>> 1)
        · rw [if_neg (not_not.mpr hfree.ref), hfree.given]
          rfl
        · have hrefs := hs.refs_at harmed.pin.1
          rw [harmed.entry_eq] at hrefs
          rw [if_pos harmed.ref_ne, harmed.given, harmed.ref, Int.toNat_natCast,
            hrefs.get List.mem_cons_self]
          rfl
  | trig | mode | taken | released | interrupt | callbackEnd => rfl

/-- At rest the interrupt of each pin with a callback is enabled. -/
theorem Sound.enabled (hs : Sound s) (hrunning : s.pins.running = none)
    (hqueue : s.pins.queue = []) {p : Nat} (hp : s.given p ≠ none) :
    s.pins.intrState p = s.pins.pinIntType p ∧ s.pins.pinIntType p ≠ 0 := by
  obtain hfree | ⟨f, n, harmed⟩ := hs.free_or_armed p
  · exact absurd hfree.given hp
  · refine ⟨harmed.state.resolve_right fun h => ?_, harmed.type⟩
    obtain ⟨m, hm, -⟩ | ⟨hrun, -⟩ := h.2
    · rw [hqueue] at hm
      cases hm
    · rw [hrunning] at hrun
      cases hrun

theorem sound_start : Sound (start : System α) where
  refs := holds_empty
  pin _ := .free

end Sound

section Runs

variable {objlen : Table α → Nat} (hlen : ∀ t : Table α, t.Border (objlen t))
variable (events : List (Event α))

include hlen in
/-- In every run all states are sound if and only if no pin with a callback is given what is none,
set to interrupts while its interrupt is not going to be enabled, or loses what is posted for it. -/
theorem trig_run_iff :
    Along (step objlen) (fun s e => Sound (step objlen s e)) start events ↔
      Along (step objlen) Proper start events :=
  along_congr (step objlen) _ _ Sound (fun _ e hs => sound_step_iff hlen hs e)
    (fun _ _ _ hsound => hsound) _ _ sound_start

include hlen in
/-- In such a run the task calls, for each message, the function that the pin has been given last,
with the level of the message, and at rest the interrupt of each pin with a callback is enabled. -/
theorem trig_run (hproper : Along (step objlen) Proper start events) :
    gather (step objlen) calledIn start events = gather (step objlen) dueIn start events ∧
      ((run (step objlen) start events).pins.running = none →
        (run (step objlen) start events).pins.queue = [] →
        ∀ p, (run (step objlen) start events).given p ≠ none →
          (run (step objlen) start events).pins.intrState p =
              (run (step objlen) start events).pins.pinIntType p ∧
            (run (step objlen) start events).pins.pinIntType p ≠ 0) := by
  have hstep (s : System α) (e : Event α) (hs : Sound s) (he : Proper s e) :
      Sound (step objlen s e) := (sound_step_iff hlen hs e).mpr he
  refine ⟨gather_congr (step objlen) Proper Sound hstep _ _ (fun _ e hs => hs.calledIn_eq e) _ _
    sound_start hproper, fun hrunning hqueue p hp => ?_⟩
  exact (run_invariant (step objlen) Proper Sound hstep _ _ sound_start hproper).enabled
    hrunning hqueue hp

end Runs

/-- A pin gets an edge, and in its callback another one for levels, which it gets too. -/
def levelEvents : List (Event Bool) :=
  [.trig 3 .up (.function true), .interrupt 3 true true, .callbackBegin,
    .trig 3 .low (.function false), .callbackEnd, .interrupt 3 false true, .callbackBegin,
    .callbackEnd]

theorem trig_run_iff_levelEvents :
    Along (step firstBorder) (fun s e => Sound (step firstBorder s e)) start levelEvents ↔
      Along (step firstBorder) Proper start levelEvents :=
  trig_run_iff border_firstBorder levelEvents

theorem trig_run_levelEvents :
    gather (step firstBorder) calledIn start levelEvents =
        gather (step firstBorder) dueIn start levelEvents ∧
      ((run (step firstBorder) start levelEvents).pins.running = none →
        (run (step firstBorder) start levelEvents).pins.queue = [] →
        ∀ p, (run (step firstBorder) start levelEvents).given p ≠ none →
          (run (step firstBorder) start levelEvents).pins.intrState p =
              (run (step firstBorder) start levelEvents).pins.pinIntType p ∧
            (run (step firstBorder) start levelEvents).pins.pinIntType p ≠ 0) :=
  trig_run border_firstBorder levelEvents (by decide)

example : gather (step firstBorder) calledIn start levelEvents =
    [(.value true, true), (.value false, false)] := by decide

end NodeMcu.Gpio.Trig
