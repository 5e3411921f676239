import Mathlib.Tactic.SplitIfs
import NodeMcu.Coap.Endpoints

namespace NodeMcu.Coap.WellKnown

open NodeMcu.Lib.Text NodeMcu.Coap.Endpoints

/-! ## The response -/

/-- An endpoint as far as it is listed. -/
structure Endpoint where
  path : List (List UInt8)
  coreAttr : Option (List UInt8)
  userEntry : Option (List LuserEntry)

def endpoints (vars funcs : List LuserEntry) : List Endpoint :=
  [⟨[bytesOf ".well-known", bytesOf "core"], some (bytesOf "ct=40"), none⟩,
    ⟨[bytesOf "v1", bytesOf "v"], some (bytesOf "ct=0"), some vars⟩,
    ⟨[bytesOf "v1", bytesOf "f"], none, some funcs⟩,
    ⟨[bytesOf "v1", bytesOf "c"], none, none⟩,
    ⟨[bytesOf "v1", bytesOf "id"], some (bytesOf "ct=0"), none⟩]

/-- The buffer, and the length that is taken for free. -/
structure Rsp where
  buf : List UInt8
  len : UInt16

/-- The length goes down by all of the string, whatever of it was appended. -/
def append (s : List UInt8) (rsp : Rsp) : Option Rsp :=
  (strncat rsp.buf s rsp.len.toNat).map fun buf => ⟨buf, rsp.len - UInt16.ofNat s.length⟩

def addComma (rsp : Rsp) : Option Rsp :=
  if 0 < (cString rsp.buf).length then append [0x2C] rsp else some rsp

def addPath (path : List (List UInt8)) (rsp : Rsp) : Option Rsp :=
  path.foldlM (fun rsp elem => do append elem (← append [0x2F] rsp)) rsp

def addName (name : List UInt8) (rsp : Rsp) : Option Rsp := do append name (← append [0x2F] rsp)

def addLink (path : List (List UInt8)) (attr : List UInt8) (rsp : Rsp) : Option Rsp := do
  let rsp ← addComma rsp
  let rsp ← append [0x3C] rsp
  let rsp ← addPath path rsp
  let rsp ← append [0x3E, 0x3B] rsp
  append attr rsp

def addUserLink (path : List (List UInt8)) (attr : List UInt8) (rsp : Rsp) (h : LuserEntry) :
    Option Rsp := do
  let rsp ← addComma rsp
  let rsp ← append [0x3C] rsp
  let rsp ← addPath path rsp
  let rsp ← addName h.name rsp
  let rsp ← append [0x3E, 0x3B] rsp
  append attr rsp

def addEndpoint (rsp : Rsp) (ep : Endpoint) : Option Rsp :=
  match ep.coreAttr with
  | none => some rsp
  | some attr =>
    match ep.userEntry with
    | none => addLink ep.path attr rsp
    | some hs => hs.foldlM (addUserLink ep.path attr) rsp

def buildWellKnownRsp (vars funcs : List LuserEntry) (rsplen : UInt16) : Option Rsp :=
  (endpoints vars funcs).foldlM addEndpoint ⟨List.replicate rsplen.toNat 0, rsplen - 1⟩

/-! ## The list of the links -/

def link (path : List (List UInt8)) (name : Option (List UInt8)) (attr : List UInt8) :
    List UInt8 :=
  0x3C :: ((path ++ name.toList).flatMap (0x2F :: ·) ++ ([0x3E, 0x3B] ++ attr))

/-- The links of an endpoint, if it has an attribute: of the endpoint itself or of its entries. -/
def links (ep : Endpoint) : List (List UInt8) :=
  ep.coreAttr.elim [] fun attr => ep.userEntry.elim [link ep.path none attr] fun hs =>
    hs.map fun h => link ep.path (some h.name) attr

/-- All of them with commas between them. -/
def joined : List (List UInt8) → List UInt8
  | [] => []
  | l :: ls => l ++ ls.flatMap (0x2C :: ·)

def listing (vars funcs : List LuserEntry) : List UInt8 :=
  joined ((endpoints vars funcs).flatMap links)

/-! ## One piece after another -/

section Pieces

variable {size : Nat} {text s : List UInt8} {rsp : Rsp}

/-- Nothing was cut off yet. -/
structure Tracks (size : Nat) (text : List UInt8) (rsp : Rsp) : Prop where
  buf : rsp.buf = padded size text
  noNul : 0 ∉ text
  room : text.length < size
  len : rsp.len.toNat = size - 1 - text.length

/-- The string takes the whole buffer. -/
structure Full (size : Nat) (rsp : Rsp) : Prop where
  text : ∃ text, rsp.buf = padded size text ∧ 0 ∉ text ∧ text.length + 1 = size

theorem append_fits (h : Tracks size text rsp) (hs : 0 ∉ s)
    (hfits : text.length + s.length < size) :
    ∃ rsp', append s rsp = some rsp' ∧ Tracks size (text ++ s) rsp' := by
  have hlen := h.len
  have hlt := rsp.len.toNat_lt
  have htake : s.take rsp.len.toNat = s := List.take_of_length_le (by omega)
  have hstrncat : strncat rsp.buf s rsp.len.toNat = some (padded size (text ++ s)) := by
    rw [h.buf, strncat_padded h.noNul h.room, htake, if_pos hfits]
  refine ⟨_, by rw [append, hstrncat]; rfl, rfl, ?_, ?_, ?_⟩
  · exact fun hmem => (List.mem_append.mp hmem).elim h.noNul hs
  · rw [List.length_append]
    exact hfits
  · change (rsp.len - UInt16.ofNat s.length).toNat = _
    have hle : UInt16.ofNat s.length ≤ rsp.len := by
      rw [UInt16.le_iff_toNat_le, UInt16.toNat_ofNat']
      omega
    rw [UInt16.toNat_sub_of_le _ _ hle, UInt16.toNat_ofNat', List.length_append]
    omega

theorem append_cut (h : Tracks size text rsp) (hs : 0 ∉ s)
    (hcut : ¬text.length + s.length < size) :
    ∃ rsp', append s rsp = some rsp' ∧ Full size rsp' ∧
      rsp'.len = rsp.len - UInt16.ofNat s.length ∧ rsp.len.toNat < s.length := by
  have hlen := h.len
  have hroom := h.room
  have htake : (s.take rsp.len.toNat).length = rsp.len.toNat := by
    rw [List.length_take]
    omega
  have hstrncat : strncat rsp.buf s rsp.len.toNat =
      some (padded size (text ++ s.take rsp.len.toNat)) := by
    rw [h.buf, strncat_padded h.noNul h.room, htake, if_pos (by omega)]
  refine ⟨_, by rw [append, hstrncat]; rfl, ⟨_, rfl, ?_, ?_⟩, rfl, by omega⟩
  · exact fun hmem => (List.mem_append.mp hmem).elim h.noNul fun hmem =>
      hs (List.mem_of_mem_take hmem)
  · rw [List.length_append, htake]
    omega

theorem append_full (h : Full size rsp) (s : List UInt8) :
    append s rsp = if s = [] ∨ rsp.len = 0 then some ⟨rsp.buf, rsp.len - UInt16.ofNat s.length⟩
      else none := by
  obtain ⟨text, hbuf, hnul, hlength⟩ := h.text
  have hstrncat := strncat_padded hnul (by omega : text.length < size) s rsp.len.toNat
  rw [append, hbuf, hstrncat]
  by_cases hempty : s = [] ∨ rsp.len = 0
  · have htake : s.take rsp.len.toNat = [] := by
      obtain hs | hlen := hempty
      · rw [hs, List.take_nil]
      · rw [hlen]
        rfl
    rw [if_pos hempty, htake, List.append_nil, if_pos (by rw [List.length_nil]; omega)]
    rfl
  · have htake : 0 < (s.take rsp.len.toNat).length := by
      obtain ⟨hs, hlen⟩ := not_or.mp hempty
      have := List.length_pos_iff.mpr hs
      have : rsp.len.toNat ≠ 0 := fun h0 => hlen (UInt16.toNat_inj.mp h0)
      rw [List.length_take]
      omega
    rw [if_neg hempty, if_neg (by omega)]
    rfl

/-- What is cut off leaves a length that is not 0. -/
theorem cut_len {len : UInt16} (hs : s.length < 2 ^ 16) (hlen : len.toNat < s.length) :
    len - UInt16.ofNat s.length ≠ 0 := by
  intro h
  have hsame : len = UInt16.ofNat s.length := by
    have := UInt16.sub_add_cancel len (UInt16.ofNat s.length)
    rw [h, UInt16.zero_add] at this
    exact this.symm
  rw [hsame, UInt16.toNat_ofNat'] at hlen
  omega

def appendAll (ps : List (List UInt8)) (rsp : Rsp) : Option Rsp :=
  ps.foldlM (fun rsp s => append s rsp) rsp

theorem appendAll_cons (s : List UInt8) (ps : List (List UInt8)) (rsp : Rsp) :
    appendAll (s :: ps) rsp = (append s rsp).bind (appendAll ps) := List.foldlM_cons

theorem appendAll_append (ps qs : List (List UInt8)) (rsp : Rsp) :
    appendAll (ps ++ qs) rsp = (appendAll ps rsp).bind (appendAll qs) := List.foldlM_append

theorem appendAll_fits {ps : List (List UInt8)} (h : Tracks size text rsp)
    (hps : ∀ s ∈ ps, 0 ∉ s) (hfits : text.length + ps.flatten.length < size) :
    ∃ rsp', appendAll ps rsp = some rsp' ∧ Tracks size (text ++ ps.flatten) rsp' := by
  induction ps generalizing text rsp with
  | nil =>
    rw [List.flatten_nil, List.append_nil]
    exact ⟨rsp, rfl, h⟩
  | cons s ps ih =>
    obtain ⟨hs, hps⟩ := List.forall_mem_cons.mp hps
    rw [List.flatten_cons, List.length_append] at hfits
    obtain ⟨rsp₁, hrsp₁, htracks⟩ := append_fits h hs (by omega)
    obtain ⟨rsp', hrsp', htracks'⟩ := ih htracks hps (by rw [List.length_append]; omega)
    refine ⟨rsp', by rw [appendAll_cons, hrsp₁]; exact hrsp', ?_⟩
    rw [List.flatten_cons, ← List.append_assoc]
    exact htracks'

section Cut

variable {a b : List UInt8} (ha : a ≠ []) (hashort : a.length < 2 ^ 16) (hb : b ≠ [])
include ha hashort hb

/-- With two more pieces a full buffer is overrun, the second time if not the first. -/
theorem appendAll_full (ps : List (List UInt8)) (h : Full size rsp) :
    appendAll (ps ++ [a, b]) rsp = none := by
  induction ps generalizing rsp with
  | nil =>
    rw [List.nil_append, appendAll_cons, append_full h]
    by_cases hlen : rsp.len = 0
    · rw [if_pos (.inr hlen), hlen]
      have hcut : (0 : UInt16) - UInt16.ofNat a.length ≠ 0 :=
        cut_len hashort (List.length_pos_iff.mpr ha)
      have hfull : Full size ⟨rsp.buf, 0 - UInt16.ofNat a.length⟩ := ⟨h.text⟩
      change appendAll [b] _ = none
      rw [appendAll_cons, append_full hfull, if_neg (not_or.mpr ⟨hb, hcut⟩)]
      rfl
    · rw [if_neg (not_or.mpr ⟨ha, hlen⟩)]
      rfl
  | cons s ps ih =>
    rw [List.cons_append, appendAll_cons, append_full h]
    split_ifs
    · exact ih ⟨h.text⟩
    · rfl

/-- Where something is cut off in front of the last piece the buffer is overrun. -/
theorem appendAll_cut {ps : List (List UInt8)} (h : Tracks size text rsp) (hps : ∀ s ∈ ps, 0 ∉ s)
    (hanul : 0 ∉ a) (hcut : ¬text.length + (ps ++ [a]).flatten.length < size) :
    appendAll (ps ++ [a, b]) rsp = none := by
  induction ps generalizing text rsp with
  | nil =>
    rw [List.nil_append, List.flatten_cons, List.flatten_nil, List.append_nil] at hcut
    obtain ⟨rsp', hrsp', hfull, hlen, hlt⟩ := append_cut h hanul hcut
    rw [List.nil_append, appendAll_cons, hrsp']
    change appendAll [b] rsp' = none
    rw [appendAll_cons, append_full hfull, hlen, if_neg (not_or.mpr ⟨hb, cut_len hashort hlt⟩)]
    rfl
  | cons s ps ih =>
    obtain ⟨hs, hps⟩ := List.forall_mem_cons.mp hps
    rw [List.cons_append, List.flatten_cons, List.length_append] at hcut
    rw [List.cons_append, appendAll_cons]
    by_cases hfits : text.length + s.length < size
    · obtain ⟨rsp', hrsp', htracks⟩ := append_fits h hs hfits
      rw [hrsp']
      exact ih htracks hps (by rw [List.length_append]; omega)
    · obtain ⟨rsp', hrsp', hfull, -, -⟩ := append_cut h hs hfits
      rw [hrsp']
      exact appendAll_full ha hashort hb ps hfull

end Cut

end Pieces

/-! ## The response piece by piece -/

def elemPieces (elems : List (List UInt8)) : List (List UInt8) :=
  elems.flatMap fun elem => [[0x2F], elem]

def linkPieces (elems : List (List UInt8)) (attr : List UInt8) : List (List UInt8) :=
  [0x3C] :: (elemPieces elems ++ [[0x3E, 0x3B], attr])

theorem addPath_eq (path : List (List UInt8)) (rsp : Rsp) :
    addPath path rsp = appendAll (elemPieces path) rsp := by
  induction path generalizing rsp with
  | nil => rfl
  | cons elem path ih =>
    have hpieces : elemPieces (elem :: path) = [[0x2F], elem] ++ elemPieces path := rfl
    rw [hpieces, appendAll_append, addPath, List.foldlM_cons]
    cases hslash : append [0x2F] rsp with
    | none => rw [appendAll_cons, hslash]; rfl
    | some rsp₁ =>
      rw [appendAll_cons, hslash]
      change (append elem rsp₁ >>= addPath path) = ((append elem rsp₁).bind some).bind _
      cases append elem rsp₁ with
      | none => rfl
      | some rsp₂ => exact ih rsp₂

theorem appendAll_single (s : List UInt8) : appendAll [s] = append s := by
  funext rsp
  rw [appendAll_cons]
  cases append s rsp with
  | none => rfl
  | some rsp' => rfl

theorem addName_eq (name : List UInt8) (rsp : Rsp) :
    addName name rsp = appendAll (elemPieces [name]) rsp := by
  change (append [0x2F] rsp).bind (append name) = appendAll [[0x2F], name] rsp
  rw [appendAll_cons, appendAll_single]

theorem elemPieces_append (as bs : List (List UInt8)) :
    elemPieces (as ++ bs) = elemPieces as ++ elemPieces bs := List.flatMap_append

theorem linkPieces_eq (elems : List (List UInt8)) (attr : List UInt8) (rsp : Rsp) :
    appendAll (linkPieces elems attr) rsp =
      (append [0x3C] rsp).bind fun rsp => (appendAll (elemPieces elems) rsp).bind fun rsp =>
        (append [0x3E, 0x3B] rsp).bind (append attr) := by
  rw [linkPieces, appendAll_cons]
  congr 1
  funext rsp
  rw [appendAll_append]
  congr 1
  funext rsp
  rw [appendAll_cons, appendAll_single]

theorem addLink_eq (path : List (List UInt8)) (attr : List UInt8) (rsp : Rsp) :
    addLink path attr rsp = (addComma rsp).bind (appendAll (linkPieces path attr)) := by
  change (addComma rsp).bind (fun rsp => (append [0x3C] rsp).bind fun rsp =>
    (addPath path rsp).bind fun rsp => (append [0x3E, 0x3B] rsp).bind (append attr)) = _
  congr 1
  funext rsp
  simp only [linkPieces_eq, addPath_eq]

theorem addUserLink_eq (path : List (List UInt8)) (attr : List UInt8) (rsp : Rsp) (h : LuserEntry) :
    addUserLink path attr rsp h =
      (addComma rsp).bind (appendAll (linkPieces (path ++ [h.name]) attr)) := by
  change (addComma rsp).bind (fun rsp => (append [0x3C] rsp).bind fun rsp =>
    (addPath path rsp).bind fun rsp => (addName h.name rsp).bind fun rsp =>
      (append [0x3E, 0x3B] rsp).bind (append attr)) = _
  congr 1
  funext rsp
  simp only [linkPieces_eq, addPath_eq, addName_eq, elemPieces_append, appendAll_append,
    Option.bind_assoc]

/-! ## The commas -/

def commaPieces (elems : List (List UInt8)) (attr : List UInt8) : List (List UInt8) :=
  [0x2C] :: linkPieces elems attr

def corePath : List (List UInt8) := [bytesOf ".well-known", bytesOf "core"]

def varPath : List (List UInt8) := [bytesOf "v1", bytesOf "v"]

def idPath : List (List UInt8) := [bytesOf "v1", bytesOf "id"]

def ct0 : List UInt8 := bytesOf "ct=0"

/-- Everything that is appended. -/
def allPieces (vars : List LuserEntry) : List (List UInt8) :=
  linkPieces corePath (bytesOf "ct=40") ++
    (vars.flatMap (fun h => commaPieces (varPath ++ [h.name]) ct0) ++ commaPieces idPath ct0)

theorem append_grows {s : List UInt8} {rsp rsp' : Rsp} (h : append s rsp = some rsp') :
    (cString rsp.buf).length ≤ (cString rsp'.buf).length := by
  obtain ⟨buf, hbuf, rfl⟩ := Option.map_eq_some_iff.mp h
  exact strncat_grows hbuf

theorem appendAll_grows {ps : List (List UInt8)} {rsp rsp' : Rsp}
    (h : appendAll ps rsp = some rsp') :
    (cString rsp.buf).length ≤ (cString rsp'.buf).length := by
  induction ps generalizing rsp with
  | nil =>
    cases h
    exact Nat.le_refl _
  | cons s ps ih =>
    rw [appendAll_cons] at h
    obtain ⟨rsp₁, hrsp₁, hrest⟩ := Option.bind_eq_some_iff.mp h
    exact Nat.le_trans (append_grows hrsp₁) (ih hrest)

/-- Behind a first link there are commas. -/
theorem addComma_eq {rsp : Rsp} (h : 0 < (cString rsp.buf).length) (elems : List (List UInt8))
    (attr : List UInt8) :
    (addComma rsp).bind (appendAll (linkPieces elems attr)) =
      appendAll (commaPieces elems attr) rsp := by
  rw [addComma, if_pos h, commaPieces, appendAll_cons]

theorem addUserLinks_eq (vars : List LuserEntry) {rsp : Rsp} (h : 0 < (cString rsp.buf).length) :
    vars.foldlM (addUserLink varPath ct0) rsp =
      appendAll (vars.flatMap fun h => commaPieces (varPath ++ [h.name]) ct0) rsp := by
  induction vars generalizing rsp with
  | nil => rfl
  | cons v vars ih =>
    rw [List.foldlM_cons, List.flatMap_cons, appendAll_append, addUserLink_eq, addComma_eq h]
    cases hrsp : appendAll (commaPieces (varPath ++ [v.name]) ct0) rsp with
    | none => rfl
    | some rsp' => exact ih (Nat.lt_of_lt_of_le h (appendAll_grows hrsp))

/-- The state in front of the first endpoint. -/
def start (rsplen : UInt16) : Rsp := ⟨List.replicate rsplen.toNat 0, rsplen - 1⟩

theorem start_tracks {rsplen : UInt16} (h : rsplen ≠ 0) :
    Tracks rsplen.toNat [] (start rsplen) := by
  have hpos : 0 < rsplen.toNat := Nat.pos_of_ne_zero fun h0 => h (UInt16.toNat_inj.mp h0)
  refine ⟨rfl, List.not_mem_nil, hpos, ?_⟩
  exact UInt16.toNat_sub_of_le _ _ (UInt16.le_iff_toNat_le.mpr hpos)

theorem start_zero (s : List UInt8) (ps : List (List UInt8)) :
    appendAll (s :: ps) (start 0) = none := by
  rw [appendAll_cons]
  have hnone : strncat (start 0).buf s (start 0).len.toNat = none := by
    rw [strncat]
    exact if_neg (by simp [start, cString])
  rw [append, hnone]
  rfl

/-- Nothing comes of a first link without its first byte. -/
theorem first_nonempty {rsplen : UInt16} {elems : List (List UInt8)} {elem attr : List UInt8}
    {rsp : Rsp}
    (h : appendAll (linkPieces (elem :: elems) attr) (start rsplen) = some rsp) :
    0 < (cString rsp.buf).length := by
  have hpieces : linkPieces (elem :: elems) attr =
      [[0x3C], [0x2F]] ++ (elem :: elemPieces elems ++ [[0x3E, 0x3B], attr]) := rfl
  by_cases hzero : rsplen = 0
  · rw [hzero, linkPieces, start_zero] at h
    cases h
  have htracks := start_tracks hzero
  by_cases hone : 1 < rsplen.toNat
  · obtain ⟨rsp₁, hrsp₁, htracks₁⟩ := append_fits (s := [0x3C]) htracks (by decide) hone
    rw [linkPieces, appendAll_cons, hrsp₁] at h
    have hgrows := appendAll_grows h
    rw [htracks₁.buf, cString_padded htracks₁.noNul htracks₁.room] at hgrows
    exact hgrows
  · have hcut : ¬([] : List UInt8).length + ([] ++ [[0x3C]] : List (List UInt8)).flatten.length <
        rsplen.toNat := hone
    have hnone := appendAll_cut (b := [0x2F]) (by decide) (by decide) (by decide)
      htracks (fun s hs => (List.not_mem_nil hs).elim) (by decide) hcut
    rw [hpieces, appendAll_append] at h
    change (appendAll ([] ++ [[0x3C], [0x2F]]) _).bind _ = _ at h
    rw [hnone] at h
    cases h

theorem buildWellKnownRsp_eq (vars funcs : List LuserEntry) (rsplen : UInt16) :
    buildWellKnownRsp vars funcs rsplen = appendAll (allPieces vars) (start rsplen) := by
  have hcomma : addComma (start rsplen) = some (start rsplen) := by
    refine if_neg ?_
    rw [start]
    cases rsplen.toNat with
    | zero => exact Nat.lt_irrefl 0
    | succ n => exact Nat.lt_irrefl 0
  have hbuild : buildWellKnownRsp vars funcs rsplen =
      (addLink corePath (bytesOf "ct=40") (start rsplen)).bind fun rsp =>
        (vars.foldlM (addUserLink varPath ct0) rsp).bind fun rsp => addLink idPath ct0 rsp := by
    simp only [buildWellKnownRsp, endpoints, List.foldlM_cons, List.foldlM_nil, addEndpoint,
      bind_pure]
    rfl
  rw [hbuild, addLink_eq, hcomma, allPieces, appendAll_append]
  change (appendAll _ _).bind _ = _
  cases hfirst : appendAll (linkPieces corePath (bytesOf "ct=40")) (start rsplen) with
  | none => rfl
  | some rsp =>
    have hnonempty := first_nonempty hfirst
    change (vars.foldlM (addUserLink varPath ct0) rsp).bind _ = appendAll _ rsp
    rw [addUserLinks_eq vars hnonempty, appendAll_append]
    cases hvars : appendAll (vars.flatMap fun h => commaPieces (varPath ++ [h.name]) ct0) rsp with
    | none => rfl
    | some rsp' =>
      change addLink idPath ct0 rsp' = appendAll _ rsp'
      rw [addLink_eq, addComma_eq (Nat.lt_of_lt_of_le hnonempty (appendAll_grows hvars))]

/-! ## The bound -/

/-- The pieces in front of the last two. -/
def earlyPieces (vars : List LuserEntry) : List (List UInt8) :=
  linkPieces corePath (bytesOf "ct=40") ++
    (vars.flatMap (fun h => commaPieces (varPath ++ [h.name]) ct0) ++
      [0x2C] :: [0x3C] :: elemPieces idPath)

theorem allPieces_eq (vars : List LuserEntry) :
    allPieces vars = earlyPieces vars ++ [[0x3E, 0x3B], ct0] := by
  have hlast : commaPieces idPath ct0 =
      [0x2C] :: [0x3C] :: elemPieces idPath ++ [[0x3E, 0x3B], ct0] := rfl
  rw [allPieces, earlyPieces, hlast, List.append_assoc, List.append_assoc]

theorem allPieces_flatten (vars funcs : List LuserEntry) :
    (allPieces vars).flatten = listing vars funcs := by
  have hlink : ∀ h : LuserEntry, (commaPieces (varPath ++ [h.name]) ct0).flatten =
      0x2C :: link varPath (some h.name) ct0 := by
    intro h
    simp [commaPieces, linkPieces, elemPieces, link, varPath]
  have hvars : (vars.flatMap fun h => commaPieces (varPath ++ [h.name]) ct0).flatten =
      (vars.map fun h => link varPath (some h.name) ct0).flatMap (0x2C :: ·) := by
    induction vars with
    | nil => rfl
    | cons v vars ih =>
      rw [List.flatMap_cons, List.flatten_append, ih, hlink, List.map_cons, List.flatMap_cons]
  rw [allPieces, List.flatten_append, List.flatten_append, hvars]
  change _ = link corePath none (bytesOf "ct=40") ++
    ((vars.map fun h => link varPath (some h.name) ct0) ++ [link idPath none ct0]).flatMap
      (0x2C :: ·)
  rw [List.flatMap_append]
  rfl

/-- The pieces of a variable in front of its name. -/
def userHead : List (List UInt8) := [0x2C] :: [0x3C] :: elemPieces varPath ++ [[0x2F]]

theorem userPieces_eq (name : List UInt8) :
    commaPieces (varPath ++ [name]) ct0 = userHead ++ name :: [[0x3E, 0x3B], ct0] := rfl

/-- The bytes that the variables take, each with a comma. -/
def varsLength (vars : List LuserEntry) : Nat := (vars.map fun h => 14 + h.name.length).sum

theorem allPieces_length (vars : List LuserEntry) :
    (allPieces vars).flatten.length = 39 + varsLength vars := by
  have hvars : (vars.flatMap fun h => commaPieces (varPath ++ [h.name]) ct0).flatten.length =
      varsLength vars := by
    induction vars with
    | nil => rfl
    | cons v vars ih =>
      have hv : (commaPieces (varPath ++ [v.name]) ct0).flatten.length = 14 + v.name.length := by
        have hhead : userHead.flatten.length = 8 := by decide
        have htail : ([[0x3E, 0x3B], ct0] : List (List UInt8)).flatten.length = 6 := by decide
        rw [userPieces_eq, List.flatten_append, List.flatten_cons, List.length_append,
          List.length_append, hhead, htail]
        omega
      rw [List.flatMap_cons, List.flatten_append, List.length_append, ih, hv, varsLength,
        varsLength, List.map_cons, List.sum_cons]
  have hcore : (linkPieces corePath (bytesOf "ct=40")).flatten.length = 25 := by decide
  have hid : (commaPieces idPath ct0).flatten.length = 14 := by decide
  rw [allPieces, List.flatten_append, List.flatten_append, List.length_append, List.length_append,
    hvars, hcore, hid]
  omega

theorem earlyPieces_length (vars : List LuserEntry) :
    (earlyPieces vars ++ [[0x3E, 0x3B]]).flatten.length = 35 + varsLength vars := by
  have hall := allPieces_length vars
  have hct0 : ct0.length = 4 := by decide
  rw [allPieces_eq, List.flatten_append, List.length_append] at hall
  rw [List.flatten_append, List.length_append]
  simp only [List.flatten_cons, List.flatten_nil, List.append_nil, List.length_append,
    hct0] at hall ⊢
  omega

theorem allPieces_noNul (vars : List LuserEntry) : ∀ s ∈ allPieces vars, 0 ∉ s := by
  have hcore : ∀ s ∈ linkPieces corePath (bytesOf "ct=40"), (0 : UInt8) ∉ s := by decide
  have hid : ∀ s ∈ commaPieces idPath ct0, (0 : UInt8) ∉ s := by decide
  have hhead : ∀ s ∈ userHead, (0 : UInt8) ∉ s := by decide
  have htail : ∀ s ∈ ([[0x3E, 0x3B], ct0] : List (List UInt8)), (0 : UInt8) ∉ s := by decide
  intro s hs
  obtain hs | hs := List.mem_append.mp hs
  · exact hcore s hs
  obtain hs | hs := List.mem_append.mp hs
  · obtain ⟨v, -, hs⟩ := List.mem_flatMap.mp hs
    rw [userPieces_eq] at hs
    obtain hs | hs := List.mem_append.mp hs
    · exact hhead s hs
    obtain rfl | hs := List.mem_cons.mp hs
    · exact v.noNul
    · exact htail s hs
  · exact hid s hs

/-- The response stays in its buffer, ends with a zero, and lists everything where that fits. -/
def Lists (vars funcs : List LuserEntry) (rsplen : UInt16) : Prop :=
  ∃ rsp, buildWellKnownRsp vars funcs rsplen = some rsp ∧ rsp.buf.length = rsplen.toNat ∧
    0 ∈ rsp.buf ∧
    ((listing vars funcs).length < rsplen.toNat → cString rsp.buf = listing vars funcs)

section Bound

variable {size : Nat} {rsp : Rsp} (vars : List LuserEntry) (h : Tracks size [] rsp)
include h

theorem appendAll_whole (hall : (allPieces vars).flatten.length < size) :
    ∃ rsp', appendAll (allPieces vars) rsp = some rsp' ∧
      Tracks size (allPieces vars).flatten rsp' := by
  obtain ⟨rsp', hrsp', htracks⟩ := appendAll_fits h (allPieces_noNul vars)
    (by rw [List.length_nil, Nat.zero_add]; exact hall)
  exact ⟨rsp', hrsp', htracks⟩

theorem appendAll_lastCut (hfits : 35 + varsLength vars < size)
    (hall : ¬(allPieces vars).flatten.length < size) :
    ∃ rsp', appendAll (allPieces vars) rsp = some rsp' ∧ Full size rsp' := by
  have hsplit : allPieces vars = (earlyPieces vars ++ [[0x3E, 0x3B]]) ++ [ct0] := by
    rw [allPieces_eq, List.append_assoc]
    rfl
  have hnul := allPieces_noNul vars
  rw [hsplit] at hnul hall ⊢
  rw [List.flatten_append, List.length_append] at hall
  obtain ⟨rsp₁, hrsp₁, h₁⟩ := appendAll_fits h (fun s hs => hnul s (List.mem_append_left _ hs))
    (by rw [earlyPieces_length, List.length_nil, Nat.zero_add]; exact hfits)
  rw [List.nil_append] at h₁
  obtain ⟨rsp', hrsp', hfull, -, -⟩ := append_cut (s := ct0) h₁ (by decide) hall
  refine ⟨rsp', ?_, hfull⟩
  rw [appendAll_append, hrsp₁, appendAll_single]
  exact hrsp'

theorem appendAll_overrun (hfits : ¬35 + varsLength vars < size) :
    appendAll (allPieces vars) rsp = none := by
  have hnul := allPieces_noNul vars
  rw [allPieces_eq] at hnul ⊢
  refine appendAll_cut (by decide) (by decide) (by decide) h
    (fun s hs => hnul s (List.mem_append_left _ hs)) (by decide) ?_
  rw [earlyPieces_length, List.length_nil, Nat.zero_add]
  exact hfits

end Bound

theorem lists_bound (vars funcs : List LuserEntry) (rsplen : UInt16) :
    Lists vars funcs rsplen ↔ 36 + varsLength vars ≤ rsplen.toNat := by
  rw [Lists, buildWellKnownRsp_eq]
  by_cases hzero : rsplen = 0
  · have hnat : rsplen.toNat = 0 := by rw [hzero]; rfl
    refine iff_of_false ?_ (by omega)
    rintro ⟨rsp, hrsp, -⟩
    rw [hzero] at hrsp
    cases (start_zero [0x3C] _).symm.trans hrsp
  have htracks := start_tracks hzero
  by_cases hfits : 35 + varsLength vars < rsplen.toNat
  · refine iff_of_true ?_ (by omega)
    by_cases hall : (allPieces vars).flatten.length < rsplen.toNat
    · obtain ⟨rsp, hrsp, h⟩ := appendAll_whole vars htracks hall
      refine ⟨rsp, hrsp, ?_, ?_, fun _ => ?_⟩
      · rw [h.buf, padded_length (Nat.le_of_lt h.room)]
      · rw [h.buf]
        exact zero_mem_padded h.room
      · rw [h.buf, cString_padded h.noNul h.room, allPieces_flatten vars funcs]
    · -- only the last attribute is cut off
      obtain ⟨rsp, hrsp, hfull⟩ := appendAll_lastCut vars htracks hfits hall
      obtain ⟨text, hbuf, -, hlength⟩ := hfull.text
      rw [allPieces_flatten vars funcs] at hall
      refine ⟨rsp, hrsp, ?_, ?_, fun h => absurd h hall⟩
      · rw [hbuf, padded_length (by omega)]
      · rw [hbuf]
        exact zero_mem_padded (by omega)
  · refine iff_of_false ?_ (by omega)
    rintro ⟨rsp, hrsp, -⟩
    rw [appendAll_overrun vars htracks hfits] at hrsp
    cases hrsp

/-- The response is as it should be if and only if no more than its last attribute is cut off. -/
theorem lists_iff (vars funcs : List LuserEntry) (rsplen : UInt16) :
    Lists vars funcs rsplen ↔
      36 + (vars.map fun h => 14 + h.name.length).sum ≤ rsplen.toNat :=
  lists_bound vars funcs rsplen

theorem longName_noNul : (0 : UInt8) ∉ List.replicate 1024 0x61 :=
  fun h => absurd (List.eq_of_mem_replicate h) (by decide)

def longVar : LuserEntry := ⟨true, List.replicate 1024 0x61, 0, longName_noNul⟩

/-- A name as long as the buffer. -/
theorem longVar_not_lists : ¬Lists [longVar] [] 1024 := by
  intro h
  have hlength : varsLength [longVar] = 1038 := by
    rw [varsLength, List.map_singleton, List.sum_singleton, longVar, List.length_replicate]
  have hle := (lists_bound [longVar] [] 1024).mp h
  rw [hlength] at hle
  exact absurd hle (by decide)

end NodeMcu.Coap.WellKnown
