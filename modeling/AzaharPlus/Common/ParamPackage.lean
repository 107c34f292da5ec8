import AzaharPlus.FileSys.PathParser
import AzaharPlus.Lib.SortedMap
import Mathlib.Data.Char
import Mathlib.Data.List.Lex

/-!
# Parameter packages

`ParamPackage` of `common/param_package.cpp`, the maps of strings that hold the bindings of
controllers, with `ReplaceAll` of `common/string_util.cpp`.

* `replaceAll_replaceAll` — what is escaped is unescaped.
* `toList_ofSerialized_serialize` — reading back what was written keeps the entries whose values are
  not empty.
* `ofSerialized_serialize_iff` — the round trip gives the same map exactly when no value is empty.
-/

namespace AzaharPlus.Common

open FileSys

/-! ## The code -/

/-- `ReplaceAll`, `skip` characters further on: the occurrences of `src` from left to right, each
search starting behind the last one. -/
def replaceFrom (src dest : List Char) : Nat → List Char → List Char
  | _, [] => []
  | skip + 1, _ :: s => replaceFrom src dest skip s
  | 0, c :: s =>
      if src.isPrefixOf (c :: s) then dest ++ replaceFrom src dest (src.length - 1) s
      else c :: replaceFrom src dest 0 s

/-- `ReplaceAll`; `src` is not empty at any call. -/
def replaceAll (result src dest : List Char) : List Char :=
  if src = dest then result else replaceFrom src dest 0 result

def keyValueSeparator : Char := ':'

def paramSeparator : Char := ','

def escapeCharacter : Char := '$'

def keyValueSeparatorEscape : List Char := ['$', '0']

def paramSeparatorEscape : List Char := ['$', '1']

def escapeCharacterEscape : List Char := ['$', '2']

/-- The placeholder for empty packages. -/
def emptyPlaceholder : List Char := ['[', 'e', 'm', 'p', 't', 'y', ']']

/-- A package: a map from strings to strings. -/
abbrev ParamPackage := SortedMap (List Char) (List Char)

/-- The replacements `Serialize` makes in a key or a value. -/
def escape (part : List Char) : List Char :=
  let part := replaceAll part [escapeCharacter] escapeCharacterEscape
  let part := replaceAll part [paramSeparator] paramSeparatorEscape
  replaceAll part [keyValueSeparator] keyValueSeparatorEscape

/-- The replacements the constructor makes in a key or a value. -/
def unescape (part : List Char) : List Char :=
  let part := replaceAll part keyValueSeparatorEscape [keyValueSeparator]
  let part := replaceAll part paramSeparatorEscape [paramSeparator]
  replaceAll part escapeCharacterEscape [escapeCharacter]

/-- An entry as `Serialize` writes it, without the separator behind it. -/
def entryText (pair : List Char × List Char) : List Char :=
  escape pair.1 ++ keyValueSeparator :: escape pair.2

/-- `ParamPackage::Serialize` -/
def serialize (p : ParamPackage) : List Char :=
  if p.toList = [] then emptyPlaceholder
  else (p.toList.flatMap fun pair => entryText pair ++ [paramSeparator]).dropLast

/-- What the constructor does with one of the pairs; a pair that is not made of a key and a value is
skipped. -/
def readPair (p : ParamPackage) (pair : List Char) : ParamPackage :=
  match splitString keyValueSeparator pair with
  | [key, value] => p.insertOrAssign (unescape key) (unescape value)
  | _ => p

/-- The constructor of `ParamPackage` from a string. -/
def ofSerialized (serialized : List Char) : ParamPackage :=
  if serialized = emptyPlaceholder then SortedMap.empty
  else (splitString paramSeparator serialized).foldl readPair SortedMap.empty

/-! ## Splitting -/

theorem splitString_nil (delim : Char) : splitString delim [] = [] := by
  rw [splitString]
  rfl

/-- A line without the delimiter, to the end of the string. -/
theorem splitString_line {delim : Char} {l : List Char} (hl : delim ∉ l) (hne : l ≠ []) :
    splitString delim l = [l] := by
  have hall : ∀ c ∈ l, decide (c ≠ delim) = true := fun c hc =>
    decide_eq_true fun heq => hl (heq ▸ hc)
  have hline : getline delim l = some (l, []) := by
    rw [getline, if_neg hne, List.takeWhile_eq_self_iff.2 hall, List.dropWhile_eq_nil_iff.2 hall]
    rfl
  rw [splitString, hline]
  exact congrArg (l :: ·) (splitString_nil delim)

/-- A line without the delimiter, up to the delimiter. -/
theorem splitString_append {delim : Char} {l : List Char} (hl : delim ∉ l) (s : List Char) :
    splitString delim (l ++ delim :: s) = l :: splitString delim s := by
  have hall : ∀ c ∈ l, decide (c ≠ delim) = true := fun c hc =>
    decide_eq_true fun heq => hl (heq ▸ hc)
  have hline : getline delim (l ++ delim :: s) = some (l, s) := by
    rw [getline, if_neg (by simp), List.takeWhile_append_of_pos hall,
      List.dropWhile_append_of_pos hall]
    simp
  rw [splitString, hline]

/-- The lines of a text, each but the last with the delimiter behind it. -/
theorem splitString_flatMap {delim : Char} {ls : List (List Char)}
    (h : ∀ l ∈ ls, delim ∉ l ∧ l ≠ []) :
    splitString delim (ls.flatMap fun l => l ++ [delim]).dropLast = ls := by
  induction ls with
  | nil => exact splitString_nil delim
  | cons l ls ih =>
    obtain ⟨hl, hne⟩ := h l List.mem_cons_self
    have hrest := fun l hl => h l (List.mem_cons_of_mem _ hl)
    rw [List.flatMap_cons]
    cases ls with
    | nil =>
      rw [List.flatMap_nil, List.append_nil, List.dropLast_concat]
      exact splitString_line hl hne
    | cons m ls =>
      have hrestNe : ((m :: ls).flatMap fun l => l ++ [delim]) ≠ [] := by simp
      rw [List.dropLast_append_of_ne_nil hrestNe, List.append_assoc, List.singleton_append,
        splitString_append hl, ih hrest]

/-! ## Replacing -/

/-- Replacing a single character. -/
theorem replaceAll_single {c : Char} {dest : List Char} (hne : [c] ≠ dest) (s : List Char) :
    replaceAll s [c] dest = s.flatMap fun x => if x = c then dest else [x] := by
  rw [replaceAll, if_neg hne]
  induction s with
  | nil => rfl
  | cons x s ih =>
    rw [replaceFrom, List.flatMap_cons]
    by_cases hx : x = c
    · simp [hx, List.isPrefixOf, ih]
    · have hxc : (c == x) = false := beq_false_of_ne (Ne.symm hx)
      simp [hx, hxc, List.isPrefixOf, ih]

/-- A character that stands for itself, or one behind the escape character. -/
def IsToken (e : Char) (l : List Char) : Prop := ∃ x, x ≠ e ∧ (l = [x] ∨ l = [e, x])

/-- A token with one of the escape sequences read. -/
def readToken (e d c : Char) (l : List Char) : List Char := if l = [e, d] then [c] else l

theorem isToken_readToken {e c : Char} (hc : c ≠ e) (d : Char) {l : List Char}
    (h : IsToken e l) : IsToken e (readToken e d c l) := by
  rw [readToken]
  split
  · exact ⟨c, hc, Or.inl rfl⟩
  · exact h

/-- Replacing an escape sequence in a string of tokens reads the tokens. -/
theorem replaceAll_tokens (e d c : Char) {f : Char → List Char} (hf : ∀ x, IsToken e (f x))
    (s : List Char) :
    replaceAll (s.flatMap f) [e, d] [c] = s.flatMap fun x => readToken e d c (f x) := by
  rw [replaceAll, if_neg (by simp)]
  induction s with
  | nil => rfl
  | cons y s ih =>
    rw [List.flatMap_cons, List.flatMap_cons, readToken]
    obtain ⟨x, hx, heq | heq⟩ := hf y
    · have hxe : (e == x) = false := beq_false_of_ne (Ne.symm hx)
      rw [heq, List.singleton_append, replaceFrom, ih]
      simp [hxe, List.isPrefixOf]
    · have hxe : (e == x) = false := beq_false_of_ne (Ne.symm hx)
      rw [heq, List.cons_append, List.singleton_append, replaceFrom]
      by_cases hxd : x = d
      · simp [hxd, List.isPrefixOf, replaceFrom, ih]
      · have hdx : (d == x) = false := beq_false_of_ne (Ne.symm hxd)
        simp [hxe, hxd, hdx, List.isPrefixOf, replaceFrom, ih]

/-! ## Escaping -/

/-- How a character is written. -/
def escapeChar (c : Char) : List Char :=
  if c = '$' then ['$', '2'] else if c = ',' then ['$', '1'] else if c = ':' then ['$', '0'] else [c]

theorem escapeChar_dollar : escapeChar '$' = ['$', '2'] := rfl

theorem escapeChar_comma : escapeChar ',' = ['$', '1'] := rfl

theorem escapeChar_colon : escapeChar ':' = ['$', '0'] := rfl

theorem escapeChar_plain {c : Char} (hdollar : c ≠ '$') (hcomma : c ≠ ',') (hcolon : c ≠ ':') :
    escapeChar c = [c] := by
  rw [escapeChar, if_neg hdollar, if_neg hcomma, if_neg hcolon]

theorem isToken_escapeChar (c : Char) : IsToken '$' (escapeChar c) := by
  by_cases hdollar : c = '$'
  · exact ⟨'2', by decide, Or.inr (by rw [hdollar, escapeChar_dollar])⟩
  · by_cases hcomma : c = ','
    · exact ⟨'1', by decide, Or.inr (by rw [hcomma, escapeChar_comma])⟩
    · by_cases hcolon : c = ':'
      · exact ⟨'0', by decide, Or.inr (by rw [hcolon, escapeChar_colon])⟩
      · exact ⟨c, hdollar, Or.inl (escapeChar_plain hdollar hcomma hcolon)⟩

/-- The three replacements of `Serialize` write each character on its own. -/
theorem escape_eq (part : List Char) : escape part = part.flatMap escapeChar := by
  have hchar : ∀ c : Char,
      ((if c = '$' then ['$', '2'] else [c]).flatMap fun x =>
        (if x = ',' then ['$', '1'] else [x]).flatMap fun x =>
          if x = ':' then ['$', '0'] else [x]) = escapeChar c := by
    intro c
    by_cases hdollar : c = '$'
    · subst hdollar
      rfl
    · by_cases hcomma : c = ','
      · subst hcomma
        rfl
      · by_cases hcolon : c = ':'
        · subst hcolon
          rfl
        · rw [escapeChar_plain hdollar hcomma hcolon]
          simp [hdollar, hcomma, hcolon]
  calc escape part
      = replaceAll (replaceAll (replaceAll part ['$'] ['$', '2']) [','] ['$', '1']) [':']
          ['$', '0'] := rfl
    _ = part.flatMap escapeChar := by
      rw [replaceAll_single (by decide), replaceAll_single (by decide),
        replaceAll_single (by decide), List.flatMap_assoc, List.flatMap_assoc, funext hchar]

/-- What is escaped is unescaped. -/
theorem unescape_escape (part : List Char) : unescape (escape part) = part := by
  have hchar : ∀ c : Char,
      readToken '$' '2' '$' (readToken '$' '1' ',' (readToken '$' '0' ':' (escapeChar c))) = [c] := by
    intro c
    by_cases hdollar : c = '$'
    · subst hdollar
      rfl
    · by_cases hcomma : c = ','
      · subst hcomma
        rfl
      · by_cases hcolon : c = ':'
        · subst hcolon
          rfl
        · rw [escapeChar_plain hdollar hcomma hcolon]
          simp [readToken]
  have htoken₀ := isToken_escapeChar
  have htoken₁ := fun c => isToken_readToken (c := ':') (by decide) '0' (htoken₀ c)
  have htoken₂ := fun c => isToken_readToken (c := ',') (by decide) '1' (htoken₁ c)
  calc unescape (escape part)
      = replaceAll (replaceAll (replaceAll (escape part) ['$', '0'] [':']) ['$', '1'] [','])
          ['$', '2'] ['$'] := rfl
    _ = part.flatMap fun c => [c] := by
      rw [escape_eq, replaceAll_tokens _ _ _ htoken₀, replaceAll_tokens _ _ _ htoken₁,
        replaceAll_tokens _ _ _ htoken₂, funext hchar]
    _ = part := List.flatMap_singleton' part

/-- The separators are escaped. -/
theorem separators_not_mem_escape (part : List Char) :
    paramSeparator ∉ escape part ∧ keyValueSeparator ∉ escape part := by
  have hchar : ∀ c, ',' ∉ escapeChar c ∧ ':' ∉ escapeChar c := by
    intro c
    by_cases hdollar : c = '$'
    · rw [hdollar, escapeChar_dollar]
      decide
    · by_cases hcomma : c = ','
      · rw [hcomma, escapeChar_comma]
        decide
      · by_cases hcolon : c = ':'
        · rw [hcolon, escapeChar_colon]
          decide
        · rw [escapeChar_plain hdollar hcomma hcolon, List.mem_singleton, List.mem_singleton]
          exact ⟨Ne.symm hcomma, Ne.symm hcolon⟩
  rw [escape_eq]
  constructor
  · intro hmem
    obtain ⟨c, -, hc⟩ := List.mem_flatMap.1 hmem
    exact (hchar c).1 hc
  · intro hmem
    obtain ⟨c, -, hc⟩ := List.mem_flatMap.1 hmem
    exact (hchar c).2 hc

theorem escape_eq_nil (part : List Char) : escape part = [] ↔ part = [] := by
  constructor
  · intro h
    rw [← unescape_escape part, h]
    rfl
  · rintro rfl
    rfl

/-! ## The round trip -/

/-- The text of an entry, read back: an entry with an empty value is skipped. -/
theorem readPair_entryText (p : ParamPackage) (pair : List Char × List Char) :
    readPair p (entryText pair) =
      if pair.2 = [] then p else p.insertOrAssign pair.1 pair.2 := by
  have hkey := (separators_not_mem_escape pair.1).2
  have hvalue := (separators_not_mem_escape pair.2).2
  rw [readPair, entryText, splitString_append hkey]
  by_cases hempty : pair.2 = []
  · -- nothing is left behind the separator, and the reader takes no empty line at the end
    rw [if_pos hempty, (escape_eq_nil pair.2).2 hempty, splitString_nil]
  · have hne : escape pair.2 ≠ [] := fun h => hempty ((escape_eq_nil pair.2).1 h)
    rw [if_neg hempty, splitString_line hvalue hne]
    simp only [unescape_escape]

theorem paramSeparator_not_mem_entryText (pair : List Char × List Char) :
    paramSeparator ∉ entryText pair := by
  have hkey := (separators_not_mem_escape pair.1).1
  have hvalue := (separators_not_mem_escape pair.2).1
  rw [entryText, List.mem_append, List.mem_cons]
  rintro (h | h | h)
  · exact hkey h
  · exact absurd h (by decide)
  · exact hvalue h

/-- The text of a package splits into those of its entries. -/
theorem splitString_serialize {p : ParamPackage} (h : p.toList ≠ []) :
    splitString paramSeparator (serialize p) = p.toList.map entryText := by
  have hentries : ∀ l ∈ p.toList.map entryText, paramSeparator ∉ l ∧ l ≠ [] := by
    intro l hl
    obtain ⟨pair, -, rfl⟩ := List.mem_map.1 hl
    exact ⟨paramSeparator_not_mem_entryText pair, by simp [entryText]⟩
  rw [serialize, if_neg h, ← splitString_flatMap hentries, List.flatMap_map]

/-- A package with entries is not written as the placeholder. -/
theorem serialize_ne_emptyPlaceholder {p : ParamPackage} (h : p.toList ≠ []) :
    serialize p ≠ emptyPlaceholder := by
  intro heq
  have hsplit := splitString_serialize h
  rw [heq, splitString_line (by decide) (by decide)] at hsplit
  have hmem : emptyPlaceholder ∈ p.toList.map entryText := by
    rw [← hsplit]
    exact List.mem_singleton_self _
  obtain ⟨pair, -, hpair⟩ := List.mem_map.1 hmem
  have hcolon : keyValueSeparator ∈ entryText pair := by simp [entryText]
  rw [hpair] at hcolon
  exact absurd hcolon (by decide)

/-- Reading back what was written keeps the entries whose values are not empty. -/
theorem toList_ofSerialized_serialize (p : ParamPackage) :
    (ofSerialized (serialize p)).toList = p.toList.filter fun pair => pair.2 ≠ [] := by
  by_cases h : p.toList = []
  · rw [serialize, if_pos h, h]
    rfl
  · have hread : (p.toList.map entryText).foldl readPair SortedMap.empty =
        (p.toList.filter fun pair => pair.2 ≠ []).foldl
          (fun m pair => m.insertOrAssign pair.1 pair.2) SortedMap.empty := by
      rw [List.foldl_map, List.foldl_filter]
      congr 1
      funext m pair
      rw [readPair_entryText]
      by_cases hempty : pair.2 = [] <;> simp [hempty]
    rw [ofSerialized, if_neg (serialize_ne_emptyPlaceholder h), splitString_serialize h, hread,
      SortedMap.toList_foldl_insertOrAssign]
    · rfl
    · exact p.sorted.sublist List.filter_sublist

/-- **Reading back a package gives the same map exactly when no value is empty.** -/
theorem ofSerialized_serialize_iff (p : ParamPackage) :
    ofSerialized (serialize p) = p ↔ ∀ pair ∈ p.toList, pair.2 ≠ [] := by
  have hread := toList_ofSerialized_serialize p
  constructor
  · intro h pair hpair
    rw [h] at hread
    rw [hread] at hpair
    exact of_decide_eq_true (List.mem_filter.1 hpair).2
  · intro h
    apply SortedMap.ext
    rw [hread]
    exact List.filter_eq_self.2 fun pair hpair => decide_eq_true (h pair hpair)

/-- The package with one key and an empty value comes back empty. -/
theorem empty_value_lost :
    ofSerialized (serialize (SortedMap.empty.insertOrAssign ['k'] [])) = SortedMap.empty ∧
      SortedMap.empty.insertOrAssign ['k'] ([] : List Char) ≠ SortedMap.empty := by
  refine ⟨SortedMap.ext ?_, fun h => ?_⟩
  · rw [toList_ofSerialized_serialize]
    rfl
  · exact absurd (congrArg SortedMap.toList h) (by decide)

end AzaharPlus.Common
