import Mathlib

/-!
# The address in a configuration string

`extract_http_addr` of `db/mod.rs`. The sender reads the configuration string by its grammar, a
schema and then `key=value;` in any order. The migrator takes its address from the same string with
a search for `http::addr=` at the start of a part, and the schema stands before the first key only.
-/

set_option autoImplicit false

namespace Cryptomeria

/-- `str::strip_prefix`, on characters. -/
def stripPrefix (start : String) (part : List Char) : Option String :=
  if start.toList <+: part then some (String.ofList (part.drop start.toList.length)) else none

/-- What the loop of `extract_http_addr` looks for in one part. -/
def addrOf (part : List Char) : Option String :=
  (stripPrefix "http::addr=" part).or (stripPrefix "https::addr=" part)

def extractHttpAddr (confStr : String) : String :=
  ((confStr.toList.splitOn ';').findSome? addrOf).getD "localhost:9000"

/-! ## Configuration strings -/

/-- The characters that the grammar knows. -/
def isDelimiter (ch : Char) : Bool := ch = ':' || ch = '=' || ch = ';'

inductive Schema where
  | http
  | https
deriving DecidableEq

def Schema.word : Schema → String
  | http => "http"
  | https => "https"

structure ConfPair where
  key : String
  value : String
  key_plain : ∀ ch ∈ key.toList, isDelimiter ch = false
  value_plain : ';' ∉ value.toList

/-- `key=value`, as characters. -/
def ConfPair.text (p : ConfPair) : List Char := p.key.toList ++ '=' :: p.value.toList

structure Conf where
  schema : Schema
  pairs : List ConfPair

namespace Conf

/-- `schema::key=value;key=value;` -/
def text (conf : Conf) : String :=
  String.ofList (conf.schema.word.toList ++ ':' :: ':' ::
    conf.pairs.flatMap fun p => p.text ++ [';'])

/-- The value of `addr`, which is where the sender connects to. -/
def addr (conf : Conf) : Option String :=
  (conf.pairs.find? fun p => p.key = "addr").map ConfPair.value

end Conf

/-! ## The parts of a configuration string -/

variable {p : ConfPair} {schema schema' : Schema}

/-- Words with a delimiter behind them are the same if what follows them is the same. -/
theorem word_inj {xs ys us vs : List Char} {d e : Char} (hx : ∀ ch ∈ xs, isDelimiter ch = false)
    (hy : ∀ ch ∈ ys, isDelimiter ch = false) (hd : isDelimiter d = true)
    (he : isDelimiter e = true) (h : xs ++ d :: us = ys ++ e :: vs) :
    xs = ys ∧ d = e ∧ us = vs := by
  induction xs generalizing ys with
  | nil =>
    cases ys with
    | nil => exact ⟨rfl, List.cons.inj h⟩
    | cons y ys =>
      obtain ⟨rfl, -⟩ := List.cons.inj h
      rw [hy d List.mem_cons_self] at hd
      cases hd
  | cons x xs ih =>
    cases ys with
    | nil =>
      obtain ⟨rfl, -⟩ := List.cons.inj h
      rw [hx x List.mem_cons_self] at he
      cases he
    | cons y ys =>
      obtain ⟨rfl, htail⟩ := List.cons.inj h
      obtain ⟨rfl, hrest⟩ := ih (fun ch hch => hx ch (List.mem_cons_of_mem _ hch))
        (fun ch hch => hy ch (List.mem_cons_of_mem _ hch)) htail
      exact ⟨rfl, hrest⟩

theorem ConfPair.text_plain (p : ConfPair) : ';' ∉ p.text := by
  intro h
  rcases List.mem_append.mp h with h | h
  · exact absurd (p.key_plain _ h) (by decide)
  · rcases List.mem_cons.mp h with h | h
    · exact absurd h (by decide)
    · exact p.value_plain h

theorem Schema.word_plain (schema : Schema) :
    ∀ ch ∈ schema.word.toList, isDelimiter ch = false := by
  cases schema <;> simp [word, isDelimiter]

/-- The first part is the schema and the first pair, every other part is one pair, and the last
part is empty. -/
theorem splitOn_pairs (pairs : List ConfPair) :
    (pairs.flatMap fun p => p.text ++ [';']).splitOn ';' = pairs.map ConfPair.text ++ [[]] := by
  induction pairs with
  | nil => rfl
  | cons p pairs ih =>
    rw [List.flatMap_cons, List.append_assoc, List.singleton_append,
      List.splitOn_append_cons_self_of_not_mem p.text_plain, ih]
    rfl

theorem addr_plain : ∀ ch ∈ "addr".toList, isDelimiter ch = false := by simp [isDelimiter]

theorem stripPrefix_append (start : String) (rest : List Char) :
    stripPrefix start (start.toList ++ rest) = some (String.ofList rest) := by
  rw [stripPrefix, if_pos (List.prefix_append _ _), List.drop_left]

/-- What is looked for begins with a schema, and a pair with its key. -/
theorem stripPrefix_text (schema : Schema) (p : ConfPair) :
    stripPrefix (schema.word ++ "::addr=") p.text = none := by
  refine if_neg ?_
  rintro ⟨rest, hrest⟩
  rw [String.toList_append, List.append_assoc] at hrest
  have hdelimiter := (word_inj schema.word_plain p.key_plain (by decide) (by decide) hrest).2.1
  exact absurd hdelimiter (by decide)

/-- In the first part it begins with the schema, and the key follows. -/
theorem stripPrefix_first (schema schema' : Schema) (p : ConfPair) :
    stripPrefix (schema.word ++ "::addr=") (schema'.word.toList ++ ':' :: ':' :: p.text)
      = if schema = schema' ∧ p.key = "addr" then some p.value else none := by
  split
  · rename_i h
    obtain ⟨rfl, hkey⟩ := h
    have htext : schema.word.toList ++ ':' :: ':' :: p.text
        = (schema.word ++ "::addr=").toList ++ p.value.toList := by
      rw [ConfPair.text, hkey, String.toList_append, List.append_assoc]
      rfl
    rw [htext, stripPrefix_append, String.ofList_toList]
  · rename_i hne
    refine if_neg ?_
    rintro ⟨rest, hrest⟩
    rw [String.toList_append, List.append_assoc] at hrest
    obtain ⟨hschema, -, hafter⟩ :=
      word_inj schema.word_plain schema'.word_plain (by decide) (by decide) hrest
    have hkey := (word_inj addr_plain p.key_plain (by decide) (by decide)
      (List.cons.inj hafter).2).1
    refine hne ⟨?_, (String.toList_inj.mp hkey).symm⟩
    cases schema <;> cases schema' <;> first | rfl | exact absurd hschema (by decide)

/-- A part that is a pair alone is passed over. -/
theorem addrOf_text (p : ConfPair) : addrOf p.text = none := by
  rw [addrOf, show "http::addr=" = Schema.http.word ++ "::addr=" from rfl,
    show "https::addr=" = Schema.https.word ++ "::addr=" from rfl, stripPrefix_text,
    stripPrefix_text]
  rfl

/-- The first part has the address if its key is `addr`. -/
theorem addrOf_first (schema : Schema) (p : ConfPair) :
    addrOf (schema.word.toList ++ ':' :: ':' :: p.text)
      = if p.key = "addr" then some p.value else none := by
  rw [addrOf, show "http::addr=" = Schema.http.word ++ "::addr=" from rfl,
    show "https::addr=" = Schema.https.word ++ "::addr=" from rfl, stripPrefix_first,
    stripPrefix_first]
  cases schema <;> by_cases hkey : p.key = "addr" <;> simp [hkey]

/-- The first part ends at the first `;`. -/
theorem first_plain (schema : Schema) (p : ConfPair) :
    ';' ∉ schema.word.toList ++ ':' :: ':' :: p.text := by
  intro h
  rcases List.mem_append.mp h with h | h
  · exact absurd (schema.word_plain _ h) (by decide)
  · simp only [List.mem_cons] at h
    rcases h with h | h | h
    · exact absurd h (by decide)
    · exact absurd h (by decide)
    · exact p.text_plain h

theorem findSome?_later (pairs : List ConfPair) :
    (pairs.map ConfPair.text ++ [[]]).findSome? addrOf = none := by
  rw [List.findSome?_eq_none_iff]
  intro part hpart
  rcases List.mem_append.mp hpart with h | h
  · obtain ⟨p, -, rfl⟩ := List.mem_map.mp h
    exact addrOf_text p
  · rw [List.mem_singleton.mp h]
    decide

/-- The loop finds the address in the first pair or nowhere. -/
theorem extractHttpAddr_text (conf : Conf) :
    extractHttpAddr conf.text
      = ((conf.pairs.head?.filter fun p => p.key = "addr").map ConfPair.value).getD
          "localhost:9000" := by
  rw [extractHttpAddr, Conf.text, String.toList_ofList]
  cases hpairs : conf.pairs with
  | nil => cases conf.schema <;> decide
  | cons p pairs =>
    have hparts : (conf.schema.word.toList ++ ':' :: ':' ::
        (p :: pairs).flatMap fun p => p.text ++ [';']).splitOn ';'
        = (conf.schema.word.toList ++ ':' :: ':' :: p.text) ::
          (pairs.map ConfPair.text ++ [[]]) := by
      have happ := List.splitOn_append_cons_self_of_not_mem (first_plain conf.schema p)
        (pairs.flatMap fun p => p.text ++ [';'])
      rw [splitOn_pairs] at happ
      rw [← happ, List.flatMap_cons]
      simp
    rw [hparts, List.findSome?_cons, addrOf_first]
    by_cases hkey : p.key = "addr"
    · simp [hkey, Option.filter_some]
    · rw [if_neg hkey, findSome?_later]
      simp [hkey, Option.filter_some]

/-- **When both address the same server.** The address of the sender is found if and only if it
stands in the first pair, or is the default. -/
theorem extractHttpAddr_eq_iff {conf : Conf} {value : String} (haddr : conf.addr = some value) :
    extractHttpAddr conf.text = value ↔
      (∃ p pairs, conf.pairs = p :: pairs ∧ p.key = "addr") ∨ value = "localhost:9000" := by
  rw [extractHttpAddr_text]
  rw [Conf.addr] at haddr
  cases hpairs : conf.pairs with
  | nil =>
    rw [hpairs] at haddr
    cases haddr
  | cons p pairs =>
    rw [hpairs] at haddr
    by_cases hkey : p.key = "addr"
    · have hvalue : p.value = value := by simpa [hkey] using haddr
      have hfirst : (((some p).filter fun p => p.key = "addr").map ConfPair.value).getD
          "localhost:9000" = value := by simp [Option.filter_some, hkey, hvalue]
      exact iff_of_true hfirst (Or.inl ⟨p, pairs, rfl, hkey⟩)
    · have hfirst : (((some p).filter fun p => p.key = "addr").map ConfPair.value).getD
          "localhost:9000" = "localhost:9000" := by simp [Option.filter_some, hkey]
      have hno : ¬ ∃ p' pairs', p :: pairs = p' :: pairs' ∧ p'.key = "addr" := by
        rintro ⟨p', pairs', ⟨⟩, hkey'⟩
        exact hkey hkey'
      rw [List.head?_cons, hfirst, or_iff_right hno, eq_comm]

def dbAddr : ConfPair where
  key := "addr"
  value := "db:9000"
  key_plain := addr_plain
  value_plain := by decide

def adminUser : ConfPair where
  key := "username"
  value := "admin"
  key_plain := by simp [isDelimiter]
  value_plain := by decide

theorem extractHttpAddr_eq_iff_first :
    extractHttpAddr (Conf.text { schema := .http, pairs := [dbAddr, adminUser] }) = "db:9000" :=
  (extractHttpAddr_eq_iff rfl).mpr (Or.inl ⟨dbAddr, [adminUser], rfl, rfl⟩)

/-- `http::username=admin;addr=db:9000;` sends the schema changes to the default server. -/
theorem migrations_elsewhere :
    ¬ ∀ (conf : Conf) (value : String), conf.addr = some value →
      extractHttpAddr conf.text = value := by
  intro h
  have hdefault := h { schema := .http, pairs := [adminUser, dbAddr] } "db:9000" (by decide)
  exact absurd hdefault (by decide)

end Cryptomeria
