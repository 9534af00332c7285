import Monary.Cmonary.Columns

/-!
# Connection URIs

* `scanToUnichar`, `mongocUriUnescape`, `mongocUriParse` : the functions of these names and the parts of the last; a
  URI is ASCII, so that its characters are its bytes;
* `passes` : a scanner goes through a text to the character it looks for behind it (`scan_passes`, `scan_cases`);
* `serverText`, `parseServer_text` : the parser reads host, port, database and options from their text;
* `credentials_parseServer` : and leaves the credentials as they are.

The options are taken before their known keys are interpreted. What is computed from the parts is left out.
-/

namespace Monary
open CInt

abbrev Text := List Char

/-- The fields of `mongoc_uri_t` that are parsed. -/
structure Uri where
  hosts : List (Text × Nat)
  username : Option Text
  password : Option Text
  database : Option Text
  options : List (Text × Option Text)
  deriving DecidableEq, Repr

def Uri.empty : Uri := ⟨[], none, none, none, []⟩

/-! ## Scanning -/

/-- `scan_to_unichar`: the text before the first `stop` that no backslash hides, and the rest from it on. -/
def scanToUnichar (stop : Char) : Text → Option (Text × Text)
  | [] => none
  | [c] => if c = stop then some ([], [c]) else none
  | c :: d :: rest =>
    if c = stop then some ([], c :: d :: rest)
    else if c = '\\' then (scanToUnichar stop rest).map fun p => (c :: d :: p.1, p.2)
    else (scanToUnichar stop (d :: rest)).map fun p => (c :: p.1, p.2)

def hexValue (c : Char) : Option Nat :=
  if '0' ≤ c ∧ c ≤ '9' then some (c.toNat - '0'.toNat)
  else if 'a' ≤ c ∧ c ≤ 'f' then some (c.toNat - 'a'.toNat + 10)
  else if 'A' ≤ c ∧ c ≤ 'F' then some (c.toNat - 'A'.toNat + 10)
  else none

/-- `mongoc_uri_unescape`. -/
def mongocUriUnescape : Text → Option Text
  | [] => some []
  | '%' :: h :: l :: rest =>
    match hexValue h, hexValue l with
    | some h, some l =>
      if 0x20 ≤ 16 * h + l ∧ 16 * h + l < 0x7F then
        (mongocUriUnescape rest).map fun s => Char.ofNat (16 * h + l) :: s
      else none
    | _, _ => none
  | c :: rest => if c = '%' then none else (mongocUriUnescape rest).map fun s => c :: s

/-- `strstr (str, pat)`, as a position. -/
def strstr (pat : Text) : Text → Option Nat
  | [] => if pat = [] then some 0 else none
  | c :: s => if pat.isPrefixOf (c :: s) then some 0 else (strstr pat s).map (· + 1)

/-- `sscanf (s, "%hu", &port)`. -/
def scanShort (s : Text) : Option Nat :=
  let s := s.dropWhile (·.isWhitespace)
  let (neg, s) : Bool × Text :=
    match s with
    | '-' :: s => (true, s)
    | '+' :: s => (false, s)
    | s => (false, s)
  let digits := s.takeWhile (·.isDigit)
  if digits = [] then none
  else
    let n : Int := Nat.ofDigitChars 10 digits 0
    some ((if neg then -n else n) % 2 ^ 16).toNat

/-! ## Parsing -/

/-- `MONGOC_DEFAULT_PORT`. -/
def defaultPort : Nat := 27017

def parseUserpass (uri : Uri) (str : Text) : Uri × Text :=
  match scanToUnichar '@' str with
  | none => (uri, str)
  | some (s, rest) =>
    let (username, password) : Text × Option Text :=
      match scanToUnichar ':' s with
      | some (user, p) => (user, some (p.drop 1))
      | none => (s, none)
    ({ uri with username := mongocUriUnescape username, password := password.bind mongocUriUnescape },
      rest.drop 1)

section Hosts
variable (hostNameMax : Nat)

/-- `mongoc_uri_append_host`; the name is copied into an array of `hostNameMax + 1` bytes. -/
def appendHost (uri : Uri) (host : Option Text) (port : Nat) : C Uri :=
  match host with
  | none => .error .undefined
  | some host => .ok { uri with hosts := uri.hosts ++ [(host.take hostNameMax, port)] }

def parseHost6 (uri : Uri) (str : Text) : C Uri :=
  let portstr := (str.reverse.takeWhile (· != ':')).reverse
  let port := if ':' ∈ str ∧ ']' ∉ portstr then (scanShort portstr).getD defaultPort else defaultPort
  appendHost hostNameMax uri (((scanToUnichar ']' (str.drop 1)).map (·.1)).bind mongocUriUnescape) port

def parseHost (uri : Uri) (str : Text) : C (Option Uri) :=
  if str.head? = some '[' ∧ ']' ∈ str then (parseHost6 hostNameMax uri str).map some
  else
    match scanToUnichar ':' str with
    | some (hostname, rest) =>
      let port := rest.drop 1
      if port.head?.any (·.isDigit) then
        (appendHost hostNameMax uri (mongocUriUnescape hostname) ((scanShort port).getD 0)).map some
      else .ok none
    | none => (appendHost hostNameMax uri (mongocUriUnescape str) defaultPort).map some

/-- The path of a socket at the start of the text, up to the end of `.sock`. -/
def socketEnd (str : Text) : Option Nat :=
  if str.head? = some '/' then do
    let sock ← strstr ".sock".toList str
    if (strstr [','] str).all (sock < ·) && (strstr ['?'] str).all (sock < ·) then some (sock + 5) else none
  else none

/-- `mongoc_uri_parse_hosts`: the URI and the rest; the first argument bounds the turns of `goto again`. Where
the source does not set `*end`, the rest is what it was given. -/
def parseHosts : Nat → Text → Text → Bool → Uri → C (Option (Uri × Text))
  | 0, _, _, _, _ => .error .diverges
  | n + 1, start, str, ret, uri =>
    match socketEnd str with
    | some k => do
      match ← parseHost hostNameMax uri (str.take k) with
      | none => return none
      | some uri =>
        match str.drop k with
        | ',' :: str => parseHosts n start str true uri
        | _ => return some (uri, start)
    | none =>
      match scanToUnichar ',' str with
      | some (s, rest) => do
        match ← parseHost hostNameMax uri s with
        | none => return none
        | some uri => parseHosts n start (rest.drop 1) true uri
      | none =>
        match (scanToUnichar '/' str).or (scanToUnichar '?' str) with
        | some (s, rest) => do
          match ← parseHost hostNameMax uri s with
          | none => return none
          | some uri => return some (uri, rest)
        | none =>
          if str = [] then return if ret then some (uri, start) else none
          else do
            match ← parseHost hostNameMax uri str with
            | none => return none
            | some uri => return some (uri, [])

end Hosts

def parseDatabase (uri : Uri) (str : Text) : Uri × Text :=
  match scanToUnichar '?' str with
  | some (database, rest) => ({ uri with database := mongocUriUnescape database }, rest)
  | none => ({ uri with database := mongocUriUnescape str }, [])

def parseOption (uri : Uri) (str : Text) : Option Uri :=
  match scanToUnichar '=' str with
  | none => none
  | some (key, rest) => some { uri with options := uri.options ++ [(key, mongocUriUnescape (rest.drop 1))] }

/-- `mongoc_uri_parse_options`; the first argument bounds the turns. -/
def parseOptions : Nat → Text → Uri → Option Uri
  | 0, _, _ => none
  | n + 1, str, uri =>
    match scanToUnichar '&' str with
    | some (option, rest) => (parseOption uri option).bind fun uri => parseOptions n (rest.drop 1) uri
    | none => if str = [] then some uri else parseOption uri str

/-- `case '?'`. -/
def parseQuestion (uri : Uri) (str : Text) : Option Uri :=
  if str = [] then some uri else parseOptions (str.length + 1) str uri

/-- The `switch` on what follows the hosts. -/
def parseTail (uri : Uri) : Text → Option Uri
  | '/' :: str =>
    let (uri, str) := if str = [] then (uri, str) else parseDatabase uri str
    if str = [] then some uri else parseQuestion uri (str.drop 1)
  | '?' :: str => parseQuestion uri str
  | _ => some uri

/-- `mongoc_uri_parse` behind the credentials. -/
def parseServer (hostNameMax : Nat) (uri : Uri) (str : Text) : C (Option Uri) :=
  if str = [] then .ok none
  else do
    match ← parseHosts hostNameMax (str.length + 1) str str false uri with
    | none => return none
    | some (uri, rest) => return parseTail uri rest

/-- `mongoc_uri_parse`. -/
def mongocUriParse (hostNameMax : Nat) (str : Text) : C (Option Uri) :=
  if "mongodb://".toList.isPrefixOf str then
    let str := str.drop 10
    if str = [] then .ok none
    else
      let (uri, str) := parseUserpass Uri.empty str
      parseServer hostNameMax uri str
  else .ok none

/-- A URI with everything. -/
example : mongocUriParse 255 "mongodb://a%40b:c@h:1,i/d?k=v&w=1".toList =
    .ok (some ⟨[("h".toList, 1), ("i".toList, 27017)], some "a@b".toList, some "c".toList, some "d".toList,
      [("k".toList, some "v".toList), ("w".toList, some "1".toList)]⟩) := by decide

/-! ## Scanners -/

/-- `scanToUnichar` ends where it should when the text is followed by `stop`. -/
def passes (stop : Char) : Text → Bool
  | [] => true
  | [c] => c != stop && c != '\\'
  | c :: d :: w => c != stop && (if c = '\\' then passes stop w else passes stop (d :: w))

theorem scan_passes {stop : Char} {w : Text} (h : passes stop w = true) (rest : Text) :
    scanToUnichar stop (w ++ stop :: rest) = some (w, stop :: rest) := by
  fun_induction passes stop w with
  | case1 =>
    rcases rest with _ | ⟨d, rest⟩ <;> simp [scanToUnichar]
  | case2 c =>
    simp only [Bool.and_eq_true, bne_iff_ne, ne_eq] at h
    have hrest : scanToUnichar stop (stop :: rest) = some ([], stop :: rest) := by
      rcases rest with _ | ⟨d, rest⟩ <;> simp [scanToUnichar]
    show scanToUnichar stop (c :: stop :: rest) = _
    rw [scanToUnichar, if_neg h.1, if_neg h.2, hrest]
    rfl
  | case3 c d w ih ih' =>
    simp only [Bool.and_eq_true, bne_iff_ne, ne_eq] at h
    show scanToUnichar stop (c :: d :: (w ++ stop :: rest)) = _
    rw [scanToUnichar, if_neg h.1]
    by_cases hc : c = '\\'
    · rw [if_pos hc, ih (by simpa [hc] using h.2)]
      rfl
    · have hrest := ih' (by simpa [hc] using h.2)
      rw [List.cons_append] at hrest
      rw [if_neg hc, hrest]
      rfl

/-- What a scanner finds is a part that it passes, and the rest of the text from `stop` on. -/
theorem scan_cases {stop : Char} {w s rest : Text} (h : scanToUnichar stop w = some (s, rest)) :
    passes stop s = true ∧ ∃ t, rest = stop :: t ∧ w = s ++ stop :: t := by
  fun_induction scanToUnichar stop w generalizing s rest with
  | case1 => cases h
  | case2 => 
    cases h
    simp [passes]
  | case3 => cases h
  | case4 => 
    cases h
    simp [passes]
  | case5 d w hne ih =>
    obtain ⟨p, hp, heq⟩ := Option.map_eq_some_iff.mp h
    cases heq
    obtain ⟨hpass, t, hrest, hw⟩ := ih hp
    refine ⟨?_, t, hrest, by rw [hw]; rfl⟩
    rw [passes, if_pos rfl, hpass]
    simpa using hne
  | case6 c d w hne hc ih =>
    obtain ⟨p, hp, heq⟩ := Option.map_eq_some_iff.mp h
    cases heq
    obtain ⟨hpass, t, hrest, hw⟩ := ih hp
    refine ⟨?_, t, hrest, by rw [hw]; rfl⟩
    rcases hs : p.1 with _ | ⟨e, s⟩
    · simp [passes, hne, hc]
    · rw [passes, if_neg hc, ← hs, hpass]
      simpa using hne

theorem passes_of_not_mem {stop : Char} {w : Text} (hstop : stop ∉ w) (hslash : '\\' ∉ w) : passes stop w = true := by
  fun_induction passes stop w <;> simp_all <;> grind

theorem scan_none {stop : Char} {w : Text} (h : stop ∉ w) : scanToUnichar stop w = none := by
  rcases hs : scanToUnichar stop w with _ | ⟨s, rest⟩
  · rfl
  · obtain ⟨-, t, -, hw⟩ := scan_cases hs
    exact absurd (by rw [hw]; simp) h

/-! ## Escapes -/

theorem unescape_of_not_mem {w : Text} (h : '%' ∉ w) : mongocUriUnescape w = some w := by
  fun_induction mongocUriUnescape w <;> simp_all

theorem length_unescape {w s : Text} (h : mongocUriUnescape w = some s) :
    s.length ≤ w.length ∧ ('%' ∈ w → s.length < w.length) := by
  fun_induction mongocUriUnescape w generalizing s with
  | case1 =>
    cases h
    simp
  | case2 hh ll rest x hx y hy hprint ih =>
    obtain ⟨s', hs, rfl⟩ := Option.map_eq_some_iff.mp h
    have := (ih hs).1
    simp only [List.length_cons]
    omega
  | case3 => cases h
  | case4 => cases h
  | case5 => cases h
  | case6 c rest _ hc ih =>
    obtain ⟨s', hs, rfl⟩ := Option.map_eq_some_iff.mp h
    have := ih hs
    simp only [List.length_cons, List.mem_cons]
    refine ⟨by omega, ?_⟩
    rintro (rfl | hmem)
    · exact absurd rfl hc
    · have := this.2 hmem
      omega

theorem unescape_eq_self_iff {w : Text} : mongocUriUnescape w = some w ↔ '%' ∉ w := by
  refine ⟨fun h hmem => ?_, unescape_of_not_mem⟩
  exact lt_irrefl _ ((length_unescape h).2 hmem)

/-! ## The text of a server -/

def hostChar (c : Char) : Bool := c.isAlphanum || c == '.' || c == '-'

theorem not_mem_of_hostChar {w : Text} (h : ∀ c ∈ w, hostChar c = true) {s : Char} (hs : hostChar s = false) :
    s ∉ w := fun hmem => by simp [h s hmem] at hs

theorem hostChar_of_isAlphanum {c : Char} (h : c.isAlphanum = true) : hostChar c = true := by
  simp [hostChar, h]

theorem hostChar_toDigits {n : Nat} {c : Char} (h : c ∈ Nat.toDigits 10 n) : hostChar c = true := by
  apply hostChar_of_isAlphanum
  simp [Char.isAlphanum, Nat.isDigit_of_mem_toDigits (by decide) (by decide) h]

theorem scan_hostChars {stop : Char} {w : Text} (h : ∀ c ∈ w, hostChar c = true) (hs : hostChar stop = false)
    (rest : Text) : scanToUnichar stop (w ++ stop :: rest) = some (w, stop :: rest) := by
  apply scan_passes
  exact passes_of_not_mem (not_mem_of_hostChar h hs) (not_mem_of_hostChar h (by decide))

theorem scanShort_toDigits {port : Nat} (h : port < 2 ^ 16) : scanShort (Nat.toDigits 10 port) = some port := by
  have hdigits : ∀ c ∈ Nat.toDigits 10 port, c.isDigit = true := fun c hc =>
    Nat.isDigit_of_mem_toDigits (by decide) (by decide) hc
  have hvalue : Nat.ofDigitChars 10 (Nat.toDigits 10 port) 0 = port := Nat.ofDigitChars_ten_toDigits
  have hne : Nat.toDigits 10 port ≠ [] := Nat.toDigits_ne_nil
  generalize Nat.toDigits 10 port = w at hdigits hvalue hne
  rcases w with _ | ⟨c, w⟩
  · exact absurd rfl hne
  have hc := hdigits c (by simp)
  have hspace : c.isWhitespace = false := by
    by_contra hsp
    simp only [Bool.not_eq_false, Char.isWhitespace, Bool.or_eq_true, decide_eq_true_eq] at hsp
    rcases hsp with ((rfl | rfl) | rfl) | rfl <;> simp at hc
  have hminus : c ≠ '-' := by
    intro he
    rw [he] at hc
    exact absurd hc (by decide)
  have hplus : c ≠ '+' := by
    intro he
    rw [he] at hc
    exact absurd hc (by decide)
  have htake : (c :: w).takeWhile (·.isDigit) = c :: w := by
    rw [List.takeWhile_eq_self_iff]
    exact hdigits
  have hsign : (match c :: w with
      | '-' :: s => (true, s)
      | '+' :: s => (false, s)
      | s => (false, s) : Bool × Text) = (false, c :: w) := by
    split
    · rename_i heq
      exact absurd (List.cons.inj heq).1 hminus
    · rename_i heq
      exact absurd (List.cons.inj heq).1 hplus
    · rfl
  unfold scanShort
  rw [List.dropWhile_cons_of_neg (by simpa using hspace)]
  dsimp only
  rw [hsign]
  dsimp only
  rw [htake, if_neg hne, hvalue, if_neg Bool.false_ne_true]
  congr 1
  omega

section Server
variable {hostNameMax : Nat} {uri : Uri} {host : Text} {port : Nat}

theorem parseHost_text (hhost : ∀ c ∈ host, hostChar c = true) (hport : port < 2 ^ 16) :
    parseHost hostNameMax uri (host ++ ':' :: Nat.toDigits 10 port) =
      .ok (some { uri with hosts := uri.hosts ++ [(host.take hostNameMax, port)] }) := by
  have hbracket : (host ++ ':' :: Nat.toDigits 10 port).head? ≠ some '[' := by
    rcases host with _ | ⟨c, host⟩
    · simp
    · intro h
      cases h
      exact absurd (hhost '[' (by simp)) (by decide)
  have hdigit : (Nat.toDigits 10 port).head?.any (·.isDigit) = true := by
    rcases hd : Nat.toDigits 10 port with _ | ⟨c, w⟩
    · exact absurd hd Nat.toDigits_ne_nil
    · exact Nat.isDigit_of_mem_toDigits (b := 10) (n := port) (by decide) (by decide) (by rw [hd]; simp)
  unfold parseHost
  rw [if_neg (fun h => hbracket h.1), scan_hostChars hhost (by decide)]
  show (if (Nat.toDigits 10 port).head?.any (·.isDigit) = true then _ else _) = _
  rw [if_pos hdigit, unescape_of_not_mem (not_mem_of_hostChar hhost (by decide))]
  show (appendHost hostNameMax uri (some host) ((scanShort (Nat.toDigits 10 port)).getD 0)).map some = _
  rw [scanShort_toDigits hport]
  rfl

theorem parseHosts_text (hhost : ∀ c ∈ host, hostChar c = true) (hport : port < 2 ^ 16) {tail : Text}
    (htail : tail = [] ∨ tail.head? = some '/' ∨ tail.head? = some '?' ∧ '/' ∉ tail) (hcomma : ',' ∉ tail)
    (n : Nat) (start : Text) :
    parseHosts hostNameMax (n + 1) start (host ++ ':' :: Nat.toDigits 10 port ++ tail) false uri =
      .ok (some ({ uri with hosts := uri.hosts ++ [(host.take hostNameMax, port)] }, tail)) := by
  have hserver : ∀ c ∈ ':' :: Nat.toDigits 10 port, c = ':' ∨ hostChar c = true := by
    intro c hc
    rcases List.mem_cons.mp hc with rfl | hc
    · exact Or.inl rfl
    · exact Or.inr (hostChar_toDigits hc)
  have hnot : ∀ s, s ≠ ':' → hostChar s = false → s ∉ host ++ ':' :: Nat.toDigits 10 port := by
    intro s hcolon hs hmem
    rcases List.mem_append.mp hmem with hmem | hmem
    · exact not_mem_of_hostChar hhost hs hmem
    · rcases hserver s hmem with rfl | hc
      · exact hcolon rfl
      · rw [hs] at hc
        cases hc
  have hhead : (host ++ ':' :: Nat.toDigits 10 port ++ tail).head? ≠ some '/' := by
    rcases host with _ | ⟨c, host⟩
    · simp
    · intro h
      cases h
      exact absurd (hhost '/' (by simp)) (by decide)
  have hsocket : socketEnd (host ++ ':' :: Nat.toDigits 10 port ++ tail) = none := by
    unfold socketEnd
    rw [if_neg hhead]
  have hparse := @parseHost_text hostNameMax uri host port hhost hport
  have hnone : ∀ s, s ∉ host ++ ':' :: Nat.toDigits 10 port → s ∉ tail →
      scanToUnichar s (host ++ ':' :: Nat.toDigits 10 port ++ tail) = none := by
    intro s hs ht
    apply scan_none
    rw [List.mem_append]
    exact not_or.mpr ⟨hs, ht⟩
  have hstop : ∀ s t, s ≠ ':' → hostChar s = false →
      scanToUnichar s (host ++ ':' :: Nat.toDigits 10 port ++ s :: t) =
        some (host ++ ':' :: Nat.toDigits 10 port, s :: t) := by
    intro s t hcolon hs
    apply scan_passes
    exact passes_of_not_mem (hnot s hcolon hs) (hnot '\\' (by decide) (by decide))
  unfold parseHosts
  rw [hsocket]
  dsimp only
  rw [hnone ',' (hnot ',' (by decide) (by decide)) hcomma]
  dsimp only
  rcases htail with rfl | htail | ⟨htail, hslash⟩
  · have hne : host ++ ':' :: Nat.toDigits 10 port ++ [] ≠ [] := by simp
    rw [hnone '/' (hnot '/' (by decide) (by decide)) (by simp), hnone '?' (hnot '?' (by decide) (by decide)) (by simp)]
    rw [List.append_nil] at hne ⊢
    simp only [Option.or_none, if_neg hne, hparse]
    rfl
  · rcases tail with _ | ⟨c, t⟩ <;> cases htail
    rw [hstop '/' t (by decide) (by decide), Option.some_or]
    dsimp only
    rw [hparse]
    rfl
  · rcases tail with _ | ⟨c, t⟩ <;> cases htail
    rw [hnone '/' (hnot '/' (by decide) (by decide)) hslash, hstop '?' t (by decide) (by decide), Option.none_or]
    dsimp only
    rw [hparse]
    rfl

end Server

/-! ## Database and options -/

def keyValue (p : Text × Text) : Text := p.1 ++ '=' :: p.2

def keyValues (options : List (Text × Text)) : Text := ['&'].intercalate (options.map keyValue)

def databaseText (database : Option Text) : Text := database.elim [] ('/' :: ·)

def optionsText (options : List (Text × Text)) : Text := if options = [] then [] else '?' :: keyValues options

def Alphanumeric (w : Text) : Prop := ∀ c ∈ w, c.isAlphanum = true

theorem Alphanumeric.hostChar {w : Text} (h : Alphanumeric w) : ∀ c ∈ w, hostChar c = true := fun c hc =>
  hostChar_of_isAlphanum (h c hc)

section Options
variable {options : List (Text × Text)}

theorem not_mem_keyValue {p : Text × Text} (h : Alphanumeric p.1 ∧ Alphanumeric p.2) {s : Char} (heq : s ≠ '=')
    (hs : hostChar s = false) : s ∉ keyValue p := by
  unfold keyValue
  rw [List.mem_append, List.mem_cons]
  rintro (hmem | rfl | hmem)
  · exact not_mem_of_hostChar h.1.hostChar hs hmem
  · exact heq rfl
  · exact not_mem_of_hostChar h.2.hostChar hs hmem

theorem keyValues_cons_cons (p q : Text × Text) (options : List (Text × Text)) :
    keyValues (p :: q :: options) = keyValue p ++ '&' :: keyValues (q :: options) := by
  unfold keyValues
  rw [List.map_cons, List.map_cons, List.intercalate_cons_cons, List.append_assoc]
  rfl

theorem keyValues_singleton (p : Text × Text) : keyValues [p] = keyValue p := by
  simp [keyValues]

theorem not_mem_keyValues (h : ∀ p ∈ options, Alphanumeric p.1 ∧ Alphanumeric p.2) {s : Char} (heq : s ≠ '=')
    (hand : s ≠ '&') (hs : hostChar s = false) : s ∉ keyValues options := by
  induction options with
  | nil => simp [keyValues]
  | cons p options ih =>
    have hp := not_mem_keyValue (h p (by simp)) heq hs
    have ht := ih fun q hq => h q (by simp [hq])
    rcases options with _ | ⟨q, options⟩
    · rwa [keyValues_singleton]
    · rw [keyValues_cons_cons]
      simp [hp, ht, hand]

theorem length_le_keyValues (options : List (Text × Text)) : options.length ≤ (keyValues options).length := by
  induction options with
  | nil => simp
  | cons p options ih =>
    rcases options with _ | ⟨q, options⟩
    · simp only [keyValues_singleton, keyValue, List.length_append, List.length_cons, List.length_nil]
      omega
    · rw [keyValues_cons_cons]
      simp only [List.length_cons, List.length_append] at ih ⊢
      omega

theorem parseOption_text {p : Text × Text} (h : Alphanumeric p.1 ∧ Alphanumeric p.2) (uri : Uri) :
    parseOption uri (keyValue p) = some { uri with options := uri.options ++ [(p.1, some p.2)] } := by
  unfold parseOption keyValue
  rw [scan_hostChars h.1.hostChar (by decide)]
  dsimp only
  rw [List.drop_one, List.tail_cons, unescape_of_not_mem (not_mem_of_hostChar h.2.hostChar (by decide))]

theorem parseOptions_text (h : ∀ p ∈ options, Alphanumeric p.1 ∧ Alphanumeric p.2) (hne : options ≠ []) {n : Nat}
    (hn : options.length ≤ n) (uri : Uri) :
    parseOptions n (keyValues options) uri =
      some { uri with options := uri.options ++ options.map fun p => (p.1, some p.2) } := by
  induction options generalizing n uri with
  | nil => exact absurd rfl hne
  | cons p options ih =>
    rcases n with _ | n
    · simp at hn
    have hp := h p (by simp)
    have hand := not_mem_keyValue hp (s := '&') (by decide) (by decide)
    rcases options with _ | ⟨q, options⟩
    · rw [keyValues_singleton, parseOptions, scan_none hand]
      dsimp only
      rw [if_neg (by simp [keyValue]), parseOption_text hp]
      rfl
    · rw [keyValues_cons_cons, parseOptions,
        scan_passes (passes_of_not_mem hand (not_mem_keyValue hp (by decide) (by decide)))]
      dsimp only
      rw [parseOption_text hp, Option.bind_some, List.drop_one, List.tail_cons,
        ih (fun r hr => h r (by simp [hr])) (by simp) (by simpa using hn)]
      simp

theorem parseQuestion_text (h : ∀ p ∈ options, Alphanumeric p.1 ∧ Alphanumeric p.2) (hne : options ≠ []) (uri : Uri) :
    parseQuestion uri (keyValues options) =
      some { uri with options := uri.options ++ options.map fun p => (p.1, some p.2) } := by
  have hlen := length_le_keyValues options
  have hpos := List.length_pos_of_ne_nil hne
  unfold parseQuestion
  rw [if_neg (List.ne_nil_of_length_pos (by omega)), parseOptions_text h hne (by omega)]

theorem parseDatabase_text {database : Text} (hd : Alphanumeric database) (uri : Uri) :
    parseDatabase uri (database ++ optionsText options) =
      ({ uri with database := some database }, optionsText options) := by
  have hname := unescape_of_not_mem (not_mem_of_hostChar hd.hostChar (s := '%') (by decide))
  unfold parseDatabase optionsText
  by_cases hne : options = []
  · rw [if_pos hne, List.append_nil, scan_none (not_mem_of_hostChar hd.hostChar (by decide))]
    dsimp only
    rw [hname]
  · rw [if_neg hne, scan_hostChars hd.hostChar (by decide)]
    dsimp only
    rw [hname]

theorem parseTail_slash {str : Text} (hne : str ≠ []) (uri : Uri) :
    parseTail uri ('/' :: str) =
      if (parseDatabase uri str).2 = [] then some (parseDatabase uri str).1
      else parseQuestion (parseDatabase uri str).1 ((parseDatabase uri str).2.drop 1) := by
  show (match if str = [] then (uri, str) else parseDatabase uri str with
    | (uri, str) => if str = [] then some uri else parseQuestion uri (str.drop 1)) = _
  rw [if_neg hne]

theorem parseTail_text {database : Option Text} (hd : ∀ d ∈ database, d ≠ [] ∧ Alphanumeric d)
    (h : ∀ p ∈ options, Alphanumeric p.1 ∧ Alphanumeric p.2) (uri : Uri) (huri : uri.database = none) :
    parseTail uri (databaseText database ++ optionsText options) =
      some { uri with database := database, options := uri.options ++ options.map fun p => (p.1, some p.2) } := by
  rcases database with _ | d
  · show parseTail uri (optionsText options) = _
    unfold optionsText
    by_cases hne : options = []
    · subst hne
      simp [parseTail, ← huri]
    · rw [if_neg hne]
      show parseQuestion uri (keyValues options) = _
      rw [parseQuestion_text h hne, ← huri]
  · obtain ⟨hdne, hd⟩ := hd d rfl
    show parseTail uri ('/' :: (d ++ optionsText options)) = _
    rw [parseTail_slash (by simp [hdne]), parseDatabase_text hd]
    dsimp only
    unfold optionsText
    by_cases hne : options = []
    · simp [hne]
    · rw [if_neg hne, if_neg (by simp), List.drop_one, List.tail_cons, parseQuestion_text h hne]

end Options

/-! ## The server -/

def serverText (host : Text) (port : Nat) (database : Option Text) (options : List (Text × Text)) : Text :=
  host ++ ':' :: Nat.toDigits 10 port ++ (databaseText database ++ optionsText options)

theorem parseServer_text {hostNameMax : Nat} {host : Text} {port : Nat} {database : Option Text}
    {options : List (Text × Text)} (hhost : ∀ c ∈ host, hostChar c = true) (hport : port < 2 ^ 16)
    (hd : ∀ d ∈ database, d ≠ [] ∧ Alphanumeric d) (h : ∀ p ∈ options, Alphanumeric p.1 ∧ Alphanumeric p.2)
    (username password : Option Text) :
    parseServer hostNameMax ⟨[], username, password, none, []⟩ (serverText host port database options) =
      .ok (some ⟨[(host.take hostNameMax, port)], username, password, database,
        options.map fun p => (p.1, some p.2)⟩) := by
  have hoptions : ∀ s, s ≠ '=' → s ≠ '&' → s ≠ '?' → hostChar s = false → s ∉ optionsText options := by
    intro s heq hand hquest hs
    unfold optionsText
    by_cases hne : options = []
    · simp [hne]
    · simp [hne, hquest, not_mem_keyValues h heq hand hs]
  have hcomma : ',' ∉ databaseText database ++ optionsText options := by
    rw [List.mem_append, not_or]
    refine ⟨?_, hoptions ',' (by decide) (by decide) (by decide) (by decide)⟩
    rcases database with _ | d
    · simp [databaseText]
    · simp [databaseText, not_mem_of_hostChar (hd d rfl).2.hostChar (s := ',') (by decide)]
  have hshape : databaseText database ++ optionsText options = [] ∨
      (databaseText database ++ optionsText options).head? = some '/' ∨
      (databaseText database ++ optionsText options).head? = some '?' ∧
        '/' ∉ databaseText database ++ optionsText options := by
    rcases database with _ | d
    · by_cases hne : options = []
      · left
        simp [databaseText, optionsText, hne]
      · right
        right
        refine ⟨by simp [databaseText, optionsText, hne], ?_⟩
        exact hoptions '/' (by decide) (by decide) (by decide) (by decide)
    · right
      left
      rfl
  unfold parseServer serverText
  rw [if_neg (by simp), parseHosts_text hhost hport hshape hcomma]
  show Except.ok (parseTail _ _) = _
  rw [parseTail_text hd h _ rfl]
  rfl

/-! ## The credentials -/

def Uri.credentials (uri : Uri) : Option Text × Option Text := (uri.username, uri.password)

section Credentials
variable {hostNameMax : Nat} {uri uri' : Uri}

theorem credentials_appendHost {host : Option Text} {port : Nat} (h : appendHost hostNameMax uri host port = .ok uri') :
    uri'.credentials = uri.credentials := by
  rcases host with _ | host <;> cases h
  rfl

theorem credentials_map_some {r : C Uri} (hr : ∀ u, r = .ok u → u.credentials = uri.credentials)
    (h : r.map some = .ok (some uri')) : uri'.credentials = uri.credentials := by
  rcases r with e | u <;> cases h
  exact hr uri' rfl

theorem credentials_parseHost {str : Text} (h : parseHost hostNameMax uri str = .ok (some uri')) :
    uri'.credentials = uri.credentials := by
  unfold parseHost at h
  split at h
  · exact credentials_map_some (fun u hu => credentials_appendHost hu) h
  · split at h
    · dsimp only at h
      split at h
      · exact credentials_map_some (fun u hu => credentials_appendHost hu) h
      · cases h
    · exact credentials_map_some (fun u hu => credentials_appendHost hu) h

theorem credentials_parseHosts {n : Nat} {start str rest : Text} {ret : Bool}
    (h : parseHosts hostNameMax n start str ret uri = .ok (some (uri', rest))) :
    uri'.credentials = uri.credentials := by
  induction n generalizing str ret uri with
  | zero => cases h
  | succ n ih =>
    have hparse : ∀ {str : Text} {k : Uri → C (Option (Uri × Text))},
        (∀ u, k u = .ok (some (uri', rest)) → uri'.credentials = u.credentials) →
        (do
          match ← parseHost hostNameMax uri str with
          | none => return none
          | some uri => k uri) = .ok (some (uri', rest)) → uri'.credentials = uri.credentials := by
      intro str k hk h
      rcases hp : parseHost hostNameMax uri str with e | r
      · rw [hp] at h
        cases h
      · rw [hp] at h
        rcases r with _ | u
        · cases h
        · exact (hk u h).trans (credentials_parseHost hp)
    unfold parseHosts at h
    split at h
    · refine hparse (fun u hu => ?_) h
      split at hu
      · exact ih hu
      · cases hu
        rfl
    · split at h
      · exact hparse (fun u hu => ih hu) h
      · split at h
        · refine hparse (fun u hu => ?_) h
          cases hu
          rfl
        · split at h
          · rcases ret with _ | _ <;> cases h
            rfl
          · refine hparse (fun u hu => ?_) h
            cases hu
            rfl

theorem credentials_parseOption {str : Text} (h : parseOption uri str = some uri') :
    uri'.credentials = uri.credentials := by
  unfold parseOption at h
  split at h <;> cases h
  rfl

theorem credentials_parseOptions {n : Nat} {str : Text} (h : parseOptions n str uri = some uri') :
    uri'.credentials = uri.credentials := by
  induction n generalizing str uri with
  | zero => cases h
  | succ n ih =>
    unfold parseOptions at h
    split at h
    · obtain ⟨u, hu, h⟩ := Option.bind_eq_some_iff.mp h
      exact (ih h).trans (credentials_parseOption hu)
    · split at h
      · cases h
        rfl
      · exact credentials_parseOption h

theorem credentials_parseTail {str : Text} (h : parseTail uri str = some uri') :
    uri'.credentials = uri.credentials := by
  have hquestion : ∀ {u : Uri} {str : Text}, parseQuestion u str = some uri' → uri'.credentials = u.credentials := by
    intro u str h
    unfold parseQuestion at h
    split at h
    · cases h
      rfl
    · exact credentials_parseOptions h
  have hdatabase : ∀ (str : Text), (if str = [] then (uri, str) else parseDatabase uri str).1.credentials =
      uri.credentials := by
    intro str
    split
    · rfl
    · unfold parseDatabase
      split <;> rfl
  unfold parseTail at h
  split at h
  · rename_i str
    have hd := hdatabase str
    generalize (if str = [] then (uri, str) else parseDatabase uri str) = p at h hd
    obtain ⟨u, str⟩ := p
    dsimp only at h hd
    rw [← hd]
    split at h
    · cases h
      rfl
    · exact hquestion h
  · exact hquestion h
  · cases h
    rfl

/-- What follows the credentials does not change them. -/
theorem credentials_parseServer {str : Text} (h : parseServer hostNameMax uri str = .ok (some uri')) :
    uri'.credentials = uri.credentials := by
  unfold parseServer at h
  split at h
  · cases h
  · rcases hp : parseHosts hostNameMax (str.length + 1) str str false uri with e | r
    · rw [hp] at h
      cases h
    · rw [hp] at h
      rcases r with _ | ⟨u, rest⟩
      · cases h
      · have ht : parseTail u rest = some uri' := Except.ok.inj h
        exact (credentials_parseTail ht).trans (credentials_parseHosts hp)

end Credentials

end Monary
