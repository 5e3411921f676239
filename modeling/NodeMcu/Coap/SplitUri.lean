import Mathlib.Tactic.ByContra
import Mathlib.Tactic.SplitIfs
import NodeMcu.Lib.Text

namespace NodeMcu.Coap.SplitUri

open NodeMcu.Lib.Text

/-! ## Splitting a URI -/

/-- A pointer into the URI, as the text from there to its end, with a length. Behind the end is a
zero. -/
structure Str where
  s : List UInt8
  length : Nat

def Str.null : Str := ⟨[], 0⟩

def Str.bytes (str : Str) : List UInt8 := str.s.take str.length

structure Uri where
  host : Str
  port : UInt16
  path : Str
  query : Str

def defaultPort : UInt16 := 5683

def emptyUri : Uri := ⟨.null, defaultPort, .null, .null⟩

/-- What follows a literal. Upper case letters are taken for lower case ones. -/
def skipLiteral : List UInt8 → List UInt8 → Option (List UInt8)
  | [], p => some p
  | c :: literal, x :: p => if toLower x = c then skipLiteral literal p else none
  | _ :: _, [] => none

/-- The end of the function, with `len` bytes left. -/
def splitQuery (p : List UInt8) (len : Nat) (uri : Uri) : Int × Uri :=
  if 0 < len ∧ p.head? = some 0x3F then (0, { uri with query := ⟨p.tail, len - 1⟩ })
  else (if len = 0 then 0 else -1, uri)

/-- From the label `path` on. What is left is counted from `q`. -/
def splitPath (p q : List UInt8) (uri : Uri) : Int × Uri :=
  if q = [] then (0, uri)
  else if q.head? = some 0x2F then
    let p := q.tail
    let q := p.dropWhile (· != 0x3F)
    if q.length < p.length
    then splitQuery q q.length { uri with path := ⟨p, p.length - q.length⟩ }
    else splitQuery p q.length uri
  else splitQuery p q.length uri

/-- The value of digits in an `int`, which wraps, as far as the port holds it. -/
def portValue (digits : List UInt8) : UInt16 :=
  (digits.foldl (fun n c => n * 10 + (c.toUInt32 - 0x30)) (0 : UInt32)).toUInt16

def splitPort (p q : List UInt8) (uri : Uri) : Int × Uri :=
  if q.head? = some 0x3A then
    let p := q.tail
    let q := p.dropWhile isDigit
    if q.length < p.length
    then splitPath q q { uri with port := portValue (p.take (p.length - q.length)) }
    else splitPath p q uri
  else splitPath p q uri

/-- A host ends in front of the port, the path or the query. -/
def isHost (c : UInt8) : Bool := c != 0x3A && c != 0x2F && c != 0x3F

/-- The host is made lower case in place, so `p` sees it so. -/
def splitHost (p : List UInt8) : Int × Uri :=
  if p.head? = some 0x5B then
    let q := p.dropWhile (· != 0x5D)
    let p := p.tail
    if q = [] ∨ p.length = q.length then (-3, emptyUri)
    else splitPort p q.tail { emptyUri with host := ⟨p, p.length - q.length⟩ }
  else
    let host := (p.takeWhile isHost).map toLower
    let q := p.dropWhile isHost
    if host = [] then (-3, emptyUri)
    else splitPort (host ++ q) q { emptyUri with host := ⟨host ++ q, host.length⟩ }

def splitUri (s : List UInt8) : Int × Uri :=
  if s.head? = some 0x2F then splitPath s s emptyUri
  else
    match skipLiteral (bytesOf "coap") s with
    | none => (-1, emptyUri)
    | some p =>
      let p := if p.head?.map toLower = some 0x73 then p.tail else p
      match skipLiteral (bytesOf "://") p with
      | none => (-2, emptyUri)
      | some p => splitHost p

/-! ## URIs of their parts -/

/-- The parts of a URI. Only the host has to be there. -/
structure Parts where
  host : List UInt8
  port : Option UInt16
  path : Option (List UInt8)
  query : Option (List UInt8)
  hostOk : ∀ c ∈ host, isHost c = true
  pathOk : ∀ p ∈ path, 0x3F ∉ p

def queryText (query : Option (List UInt8)) : List UInt8 := query.elim [] (0x3F :: ·)

def pathText (path query : Option (List UInt8)) : List UInt8 :=
  path.elim [] (0x2F :: ·) ++ queryText query

def portText (port : Option UInt16) (path query : Option (List UInt8)) : List UInt8 :=
  port.elim [] (fun n => 0x3A :: toDecimal n.toNat) ++ pathText path query

/-- `coap://host[:port][/path][?query]`. -/
def Parts.text (u : Parts) : List UInt8 :=
  bytesOf "coap://" ++ (u.host ++ portText u.port u.path u.query)

/-- A URI is split into its parts. -/
structure Splits (u : Parts) : Prop where
  rc : (splitUri u.text).1 = 0
  host : (splitUri u.text).2.host.bytes = u.host.map toLower
  port : (splitUri u.text).2.port = u.port.getD defaultPort
  path : (splitUri u.text).2.path.bytes = u.path.getD []
  query : (splitUri u.text).2.query.bytes = u.query.getD []

theorem splitUri_text (u : Parts) :
    splitUri u.text = splitHost (u.host ++ portText u.port u.path u.query) := rfl

/-! ## One part after another -/

/-- The end of a split that has come to the path: the path and the query are as they are written. -/
structure Ends (uri : Uri) (path query : Option (List UInt8)) (r : Int × Uri) : Prop where
  rc : r.1 = 0
  host : r.2.host = uri.host
  port : r.2.port = uri.port
  path : r.2.path.bytes = path.getD []
  query : r.2.query.bytes = query.getD []

theorem splitQuery_ends (path query : Option (List UInt8)) (uri : Uri)
    (hpath : uri.path.bytes = path.getD []) (hquery : uri.query = .null) :
    Ends uri path query (splitQuery (queryText query) (queryText query).length uri) := by
  cases query with
  | none => exact ⟨rfl, rfl, rfl, hpath, by rw [splitQuery, if_neg (by decide), hquery]; rfl⟩
  | some x =>
    rw [splitQuery, if_pos ⟨Nat.succ_pos _, rfl⟩]
    exact ⟨rfl, rfl, rfl, hpath, List.take_length⟩

section Ends

variable {path query : Option (List UInt8)} {uri : Uri}

theorem queryText_stops (query : Option (List UInt8)) :
    (queryText query).dropWhile (· != 0x3F) = queryText query := by
  cases query with
  | none => rfl
  | some x => rfl

/-- With a path the two pointers meet in front of the query. -/
theorem splitPath_path (p : List UInt8) {x : List UInt8} (hx : 0x3F ∉ x)
    (hpath : uri.path = .null) (hquery : uri.query = .null) :
    Ends uri (some x) query (splitPath p (pathText (some x) query) uri) := by
  have hdrop : (x ++ queryText query).dropWhile (· != 0x3F) = queryText query := by
    rw [List.dropWhile_append_of_pos, queryText_stops]
    intro c hc
    exact bne_iff_ne.mpr fun h => hx (h ▸ hc)
  have htext : pathText (some x) query = 0x2F :: (x ++ queryText query) := rfl
  rw [splitPath, if_neg (by rw [htext]; exact List.cons_ne_nil _ _), if_pos (by rw [htext]; rfl),
    htext, List.tail_cons]
  dsimp only
  rw [hdrop, List.length_append]
  by_cases hnil : x = []
  · rw [hnil, if_neg (by rw [List.length_nil]; omega)]
    exact splitQuery_ends (some []) query uri (by rw [hpath]; rfl) hquery
  · have hpos := List.length_pos_iff.mpr hnil
    rw [if_pos (by omega), Nat.add_sub_cancel_right]
    obtain ⟨hrc, hhost, hport, hbytes, hq⟩ := splitQuery_ends (some x) query
      { uri with path := ⟨x ++ queryText query, x.length⟩ } List.take_left hquery
    exact ⟨hrc, hhost, hport, hbytes, hq⟩

/-- Without a path the query is found where `p` leads to it. -/
theorem splitPath_query (hpath : uri.path = .null) (hquery : uri.query = .null) :
    Ends uri none query (splitPath (queryText query) (queryText query) uri) := by
  rw [splitPath]
  by_cases hnil : queryText query = []
  · rw [if_pos hnil]
    cases query with
    | none => exact ⟨rfl, rfl, rfl, by rw [hpath]; rfl, by rw [hquery]; rfl⟩
    | some x => cases hnil
  · have hhead : (queryText query).head? ≠ some 0x2F := by
      cases query with
      | none => exact absurd rfl hnil
      | some x => exact fun h => by cases h
    rw [if_neg hnil, if_neg hhead]
    exact splitQuery_ends none query uri (by rw [hpath]; rfl) hquery

theorem splitPath_ends (p : List UInt8) (hx : ∀ x ∈ path, 0x3F ∉ x)
    (hp : path = none → p = queryText query ∨ query = none)
    (hpath : uri.path = .null) (hquery : uri.query = .null) :
    Ends uri path query (splitPath p (pathText path query) uri) := by
  cases path with
  | some x => exact splitPath_path p (hx x rfl) hpath hquery
  | none =>
    obtain rfl | rfl := hp rfl
    · exact splitPath_query hpath hquery
    · exact ⟨rfl, rfl, rfl, by change uri.path.bytes = _; rw [hpath]; rfl,
        by change uri.query.bytes = _; rw [hquery]; rfl⟩

/-- A query is not found by a pointer that leads to the host. -/
theorem splitPath_missed {p x : List UInt8} (hp : p.head? ≠ some 0x3F) :
    (splitPath p (pathText none (some x)) uri).1 = -1 := by
  have htext : pathText none (some x) = 0x3F :: x := rfl
  rw [splitPath, htext, if_neg (List.cons_ne_nil _ _), if_neg (fun h => by cases h), splitQuery,
    if_neg fun h => hp h.2]
  rfl

end Ends

/-! ## The port and the host -/

theorem portValue_toDecimal (n : UInt16) : portValue (toDecimal n.toNat) = n := by
  have hfold : ∀ (ds : List UInt8) (a : UInt32) (b : Nat), a.toNat = b % 2 ^ 32 →
      (∀ c ∈ ds, isDigit c = true) →
      (ds.foldl (fun n c => n * 10 + (c.toUInt32 - 0x30)) a).toNat =
        ds.foldl (fun a c => 10 * a + (c.toNat - 0x30)) b % 2 ^ 32 := by
    intro ds
    induction ds with
    | nil => exact fun a b h _ => h
    | cons c ds ih =>
      intro a b h hds
      have hc := hds c List.mem_cons_self
      rw [isDigit, Bool.and_eq_true, decide_eq_true_iff, decide_eq_true_iff, UInt8.le_iff_toNat_le,
        UInt8.le_iff_toNat_le] at hc
      have hlow : 0x30 ≤ c.toNat := hc.1
      refine ih _ _ ?_ fun x hx => hds x (List.mem_cons_of_mem _ hx)
      rw [UInt32.toNat_add, UInt32.toNat_mul, UInt32.toNat_sub_of_le _ _
        (UInt32.le_iff_toNat_le.mpr (by rw [UInt8.toNat_toUInt32]; exact hlow)),
        UInt8.toNat_toUInt32, h]
      change (b % 2 ^ 32 * 10 % 2 ^ 32 + (c.toNat - 0x30)) % 2 ^ 32 = _
      rw [Nat.mod_add_mod, ← Nat.mod_add_mod, Nat.mod_mul_mod, Nat.mod_add_mod, Nat.mul_comm]
  have hn := n.toNat_lt
  have hvalue := hfold (toDecimal n.toNat) 0 0 rfl fun c hc => isDigit_of_mem_toDecimal hc
  have hdecimal := decimal_toDecimal n.toNat
  rw [decimal] at hdecimal
  rw [hdecimal] at hvalue
  rw [portValue, ← UInt16.toNat_inj, UInt32.toNat_toUInt16, hvalue]
  omega

theorem pathText_stops (path query : Option (List UInt8)) :
    (pathText path query).dropWhile isDigit = pathText path query ∧
      (pathText path query).head? ≠ some 0x3A := by
  cases path with
  | some x => exact ⟨rfl, fun h => by cases h⟩
  | none =>
    cases query with
    | none => exact ⟨rfl, fun h => by cases h⟩
    | some x => exact ⟨rfl, fun h => by cases h⟩

theorem splitPort_some (p : List UInt8) (n : UInt16) (path query : Option (List UInt8))
    (uri : Uri) : splitPort p (portText (some n) path query) uri =
      splitPath (pathText path query) (pathText path query) { uri with port := n } := by
  have hdrop : (toDecimal n.toNat ++ pathText path query).dropWhile isDigit =
      pathText path query := by
    rw [List.dropWhile_append_of_pos fun c hc => isDigit_of_mem_toDecimal hc,
      (pathText_stops path query).1]
  have hpos := List.length_pos_iff.mpr (toDecimal_ne_nil n.toNat)
  have htext : portText (some n) path query =
      0x3A :: (toDecimal n.toNat ++ pathText path query) := rfl
  have hhead : (portText (some n) path query).head? = some 0x3A := rfl
  rw [splitPort, if_pos hhead, htext, List.tail_cons]
  dsimp only
  rw [hdrop, List.length_append, if_pos (by omega), Nat.add_sub_cancel_right, List.take_left,
    portValue_toDecimal]

theorem splitPort_none (p : List UInt8) (path query : Option (List UInt8)) (uri : Uri) :
    splitPort p (portText none path query) uri = splitPath p (pathText path query) uri :=
  if_neg (pathText_stops path query).2

theorem portText_stops (port : Option UInt16) (path query : Option (List UInt8)) :
    ∀ c ∈ (portText port path query).head?, isHost c = false := by
  intro c hc
  cases port with
  | some n =>
    cases hc
    rfl
  | none =>
    cases path with
    | some x =>
      cases hc
      rfl
    | none =>
      cases query with
      | none => cases hc
      | some x =>
        cases hc
        rfl

theorem takeWhile_isHost {host t : List UInt8} (hhost : ∀ c ∈ host, isHost c = true)
    (ht : ∀ c ∈ t.head?, isHost c = false) :
    (host ++ t).takeWhile isHost = host ∧ (host ++ t).dropWhile isHost = t := by
  rw [List.takeWhile_append_of_pos hhost, List.dropWhile_append_of_pos hhost]
  cases t with
  | nil => exact ⟨List.append_nil _, rfl⟩
  | cons c t =>
    have hc : ¬isHost c = true := by rw [ht c rfl]; exact Bool.false_ne_true
    rw [List.takeWhile_cons_of_neg hc, List.dropWhile_cons_of_neg hc, List.append_nil]
    exact ⟨rfl, rfl⟩

theorem toLower_isHost (c : UInt8) : isHost (toLower c) = isHost c := by
  have hall : ∀ n < 256, isHost (toLower (UInt8.ofNat n)) = isHost (UInt8.ofNat n) := by
    decide +kernel
  have h := hall c.toNat c.toNat_lt
  rwa [UInt8.ofNat_toNat] at h

/-! ## The host is not touched behind it -/

theorem splitQuery_host (p : List UInt8) (len : Nat) (uri : Uri) :
    (splitQuery p len uri).2.host = uri.host := by
  rw [splitQuery]
  split_ifs <;> rfl

theorem splitPath_host (p q : List UInt8) (uri : Uri) :
    (splitPath p q uri).2.host = uri.host := by
  rw [splitPath]
  dsimp only
  split_ifs
  · rfl
  · rw [splitQuery_host]
  · rw [splitQuery_host]
  · rw [splitQuery_host]

theorem splitPort_host (p q : List UInt8) (uri : Uri) :
    (splitPort p q uri).2.host = uri.host := by
  rw [splitPort]
  dsimp only
  split_ifs
  · rw [splitPath_host]
  · rw [splitPath_host]
  · rw [splitPath_host]

section Host

variable {u : Parts}

theorem splitUri_noHost (hnil : u.host = []) : (splitUri u.text).1 = -3 := by
  have hstops := portText_stops u.port u.path u.query
  have htake := (takeWhile_isHost u.hostOk hstops).1
  rw [hnil, List.nil_append] at htake
  have hhead : (portText u.port u.path u.query).head? ≠ some 0x5B :=
    fun h => Bool.false_ne_true (hstops 0x5B h).symm
  rw [splitUri_text, hnil, List.nil_append, splitHost, if_neg hhead]
  dsimp only
  rw [htake]
  rfl

theorem splitUri_host (hne : u.host ≠ []) (hhead : u.host.head? ≠ some 0x5B) :
    splitUri u.text = splitPort (u.host.map toLower ++ portText u.port u.path u.query)
      (portText u.port u.path u.query)
      { emptyUri with
        host := ⟨u.host.map toLower ++ portText u.port u.path u.query, u.host.length⟩ } := by
  obtain ⟨htake, hdrop⟩ := takeWhile_isHost u.hostOk (portText_stops u.port u.path u.query)
  have hmap : u.host.map toLower ≠ [] := fun h => hne (List.map_eq_nil_iff.mp h)
  have happend : (u.host ++ portText u.port u.path u.query).head? = u.host.head? := by
    obtain ⟨c, host, hhost⟩ := List.exists_cons_of_ne_nil hne
    rw [hhost]
    rfl
  rw [splitUri_text, splitHost, happend, if_neg hhead]
  dsimp only
  rw [htake, hdrop, if_neg hmap, List.length_map]

/-- A host in a bracket goes on to the other bracket, and is not given back as it is. -/
theorem Splits.host_head (h : Splits u) : u.host.head? ≠ some 0x5B := by
  intro hhead
  obtain ⟨host, hhost⟩ := List.head?_eq_some_iff.mp hhead
  have hrc := h.rc
  have hbytes := h.host
  rw [splitUri_text, hhost, splitHost, if_pos (by rfl)] at hrc hbytes
  dsimp only at hrc hbytes
  split_ifs at hrc hbytes
  · cases hrc
  rw [splitPort_host] at hbytes
  have hlower : ∀ c ∈ (0x5B :: host).map toLower, isHost c = true := by
    intro c hc
    obtain ⟨d, hd, rfl⟩ := List.mem_map.mp hc
    rw [toLower_isHost]
    exact u.hostOk d (hhost ▸ hd)
  have hstops := portText_stops u.port u.path u.query
  rw [← hbytes] at hlower
  have hlength := congrArg List.length hbytes
  rw [Str.bytes, List.cons_append, List.tail_cons, List.length_take, List.length_append,
    List.length_map, List.length_cons] at hlength
  dsimp only at hlength
  cases ht : portText u.port u.path u.query with
  | nil =>
    rw [ht, List.length_nil] at hlength
    omega
  | cons c t =>
    rw [ht] at hstops hlower hlength
    refine Bool.false_ne_true ((hstops c rfl).symm.trans (hlower c ?_))
    rw [Str.bytes, List.cons_append, List.tail_cons, List.take_append, List.mem_append]
    refine .inr ?_
    dsimp only
    rw [List.length_append, List.take_cons (by omega)]
    exact List.mem_cons_self

theorem ends_splits {uri : Uri} (huri : uri.host.bytes = u.host.map toLower ∧
    uri.port = u.port.getD defaultPort) (h : Ends uri u.path u.query (splitUri u.text)) :
    Splits u :=
  ⟨h.rc, h.host ▸ huri.1, h.port ▸ huri.2, h.path, h.query⟩

end Host

theorem splitUri_splits_iff (u : Parts) : Splits u ↔
    u.host ≠ [] ∧ u.host.head? ≠ some 0x5B ∧ (u.port = none → u.path = none → u.query = none) := by
  constructor
  · intro h
    have hne : u.host ≠ [] := by
      intro hnil
      have hrc := h.rc
      rw [splitUri_noHost hnil] at hrc
      cases hrc
    refine ⟨hne, h.host_head, fun hport hpath => ?_⟩
    by_contra hquery
    obtain ⟨x, hx⟩ := Option.ne_none_iff_exists'.mp hquery
    have hhead : (u.host.map toLower ++ portText u.port u.path u.query).head? ≠ some 0x3F := by
      obtain ⟨c, host, hhost⟩ := List.exists_cons_of_ne_nil hne
      have hc := u.hostOk c (hhost ▸ List.mem_cons_self)
      rw [hhost]
      intro hq
      rw [← toLower_isHost, Option.some.inj hq] at hc
      exact Bool.false_ne_true hc
    have hrc := h.rc
    rw [splitUri_host hne h.host_head] at hrc
    rw [hport, hpath, hx] at hrc hhead
    rw [splitPort_none, splitPath_missed hhead] at hrc
    cases hrc
  · rintro ⟨hne, hhead, hquery⟩
    have hsplit := splitUri_host hne hhead
    have hhost : ∀ t : List UInt8, (u.host.map toLower ++ t).take u.host.length =
        u.host.map toLower := fun t => List.take_left' (List.length_map _)
    cases hport : u.port with
    | some n =>
      rw [hport, splitPort_some] at hsplit
      refine ends_splits ?_ (hsplit ▸ splitPath_ends _ u.pathOk
        (fun hnone => .inl (by rw [hnone]; rfl)) rfl rfl)
      exact ⟨hhost _, by rw [hport]; rfl⟩
    | none =>
      rw [hport, splitPort_none] at hsplit
      refine ends_splits ?_ (hsplit ▸ splitPath_ends _ u.pathOk
        (fun hnone => .inr (hquery hport hnone)) rfl rfl)
      exact ⟨hhost _, by rw [hport]; rfl⟩

theorem letter_isHost : ∀ c ∈ [0x68], isHost c = true :=
  List.forall_mem_singleton.mpr rfl

theorem none_pathOk : ∀ p ∈ (none : Option (List UInt8)), 0x3F ∉ p :=
  fun _ hp => absurd hp (Option.not_mem_none _)

/-- `coap://h?x`. -/
def queryOnly : Parts := ⟨[0x68], none, none, some [0x78], letter_isHost, none_pathOk⟩

theorem queryOnly_not_splits : ¬Splits queryOnly :=
  fun h => absurd h.rc (by decide)

end NodeMcu.Coap.SplitUri
