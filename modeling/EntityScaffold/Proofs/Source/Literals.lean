import EntityScaffold.Proofs.Source.Masking

/-!
# Code as words, marks and strings

What the code of an attribute means is told by its words, its marks and the values of its strings.
Between single quotes a backslash escapes a quote or another backslash; in front of any other
character it is one of the value.

* `lex` — reads code, one character after another.
* `Verbatim.lex_string`, `lex_string_iff` — a text between single quotes has itself as its value
  just if it stands for itself.
* `namedArguments` — the arguments that are passed by name, in order, each with all of its value.
-/

set_option autoImplicit false

namespace EntityScaffold.Source

open Text

/-- A part of code. -/
inductive Token where
  | word (w : Text)
  | mark (c : Char)
  /-- A string between single quotes, as its value. -/
  | string (value : Text)
  deriving DecidableEq

/-- Where the reading is, and what has been read of the word or the string there. -/
inductive LexMode where
  | code (word : Text)
  | string (value : Text)
  /-- Behind a backslash within a string. -/
  | escape (value : Text)

/-- The word that ends where another token begins, unless it is empty. -/
def endWord (w : Text) : List Token := if w = [] then [] else [.word w]

/-- The tokens of code.  A string without an end leaves the mark that opens it. -/
def lex : LexMode → Text → List Token
  | .code w, [] => endWord w
  | .string _, [] | .escape _, [] => [.mark '\'']
  | .code w, c :: t =>
    if isWord c then lex (.code (w ++ [c])) t
    else if c = '\'' then endWord w ++ lex (.string []) t
    else if isBlank c then endWord w ++ lex (.code []) t
    else endWord w ++ .mark c :: lex (.code []) t
  | .string v, c :: t =>
    if c = '\'' then .string v :: lex (.code []) t
    else if c = '\\' then lex (.escape v) t
    else lex (.string (v ++ [c])) t
  | .escape v, c :: t =>
    lex (.string (v ++ if c = '\'' ∨ c = '\\' then [c] else ['\\', c])) t

/-! ## Strings -/

section

variable {t v : Text}

/-- **A text that stands for itself is the value of the string.** -/
theorem Verbatim.lex_string (h : Verbatim t) (v u : Text) :
    lex (.string v) (t ++ '\'' :: u) = .string (v ++ t) :: lex (.code []) u := by
  induction h generalizing v with
  | nil => rw [List.nil_append, lex, if_pos rfl, List.append_nil]
  | @char c t hquote hbackslash _ ih =>
    rw [List.cons_append, lex, if_neg hquote, if_neg hbackslash, ih, List.append_assoc,
      List.singleton_append]
  | @escape c t hquote hbackslash _ ih =>
    have hneither : ¬(c = '\'' ∨ c = '\\') := fun h => h.elim hquote hbackslash
    rw [List.cons_append, List.cons_append, lex, if_neg (by decide), if_pos rfl, lex,
      if_neg hneither, ih, List.append_assoc]
    rfl

/-- A string takes at least the characters of its value and the quote at its end. -/
theorem length_of_lex {w : Text} {ts : List Token} :
    (lex (.string v) t = .string w :: ts → w.length < v.length + t.length) ∧
      (lex (.escape v) t = .string w :: ts → w.length ≤ v.length + t.length) := by
  induction t generalizing v with
  | nil => exact ⟨fun h => (by cases h), fun h => (by cases h)⟩
  | cons c t ih =>
    rw [lex, lex, List.length_cons]
    constructor
    · intro h
      split at h
      · cases h
        omega
      · split at h
        · have := ih.2 h
          omega
        · have := ih.1 h
          rw [List.length_append, List.length_singleton] at this
          omega
    · intro h
      have := ih.1 h
      rw [List.length_append] at this
      split at this
      · rw [List.length_singleton] at this
        omega
      · rw [List.length_cons, List.length_singleton] at this
        omega

theorem verbatim_of_lex :
    ∀ {t v : Text}, lex (.string v) (t ++ ['\'']) = [.string (v ++ t)] → Verbatim t
  | [], _, _ => .nil
  | c :: t, v, h => by
    rw [List.cons_append, lex] at h
    split at h
    · -- the string would have ended here
      have hvalue : v = v ++ c :: t := Token.string.inj (List.cons.inj h).1
      have := congrArg List.length hvalue
      rw [List.length_append, List.length_cons] at this
      omega
    · rename_i hquote
      split at h
      · rename_i hbackslash
        subst hbackslash
        match t, h with
        | [], h => cases h
        | d :: t, h =>
          rw [List.cons_append, lex] at h
          split at h
          · -- the backslash would not have been one of the value
            have := length_of_lex.1 h
            simp only [List.length_append, List.length_cons, List.length_nil] at this
            omega
          · rename_i hneither
            rw [not_or] at hneither
            refine .escape hneither.1 hneither.2 (verbatim_of_lex (v := v ++ ['\\', d]) ?_)
            rw [h, List.append_assoc]
            rfl
      · rename_i hbackslash
        refine .char hquote hbackslash (verbatim_of_lex (v := v ++ [c]) ?_)
        rw [h, List.append_assoc, List.singleton_append]

/-- **A text between single quotes has itself as its value just if it stands for itself.** -/
theorem lex_string_iff : lex (.code []) ('\'' :: (t ++ ['\''])) = [.string t] ↔ Verbatim t := by
  have hopen : lex (.code []) ('\'' :: (t ++ ['\''])) = lex (.string []) (t ++ ['\'']) := rfl
  rw [hopen]
  exact ⟨fun h => verbatim_of_lex (by rw [h]; rfl), fun h => h.lex_string [] []⟩

/-- Of a namespace the backslashes are read as they are; an apostrophe ends the string. -/
example : lex (.code []) "'App\\Tag'" = [.string "App\\Tag"] ∧
    lex (.code []) "'it's'" = [.string "it", .word "s", .mark '\''] := by decide

end

/-! ## Words -/

theorem lex_append {w : Text} (h : ∀ c ∈ w, isWord c = true) (v u : Text) :
    lex (.code v) (w ++ u) = lex (.code (v ++ w)) u := by
  induction w generalizing v with
  | nil => rw [List.nil_append, List.append_nil]
  | cons c w ih =>
    rw [List.cons_append, lex, if_pos (h c (by simp)),
      ih fun d hd => h d (List.mem_cons_of_mem c hd), List.append_assoc, List.singleton_append]

/-- **A word ends where no character of one follows.** -/
theorem lex_word {w : Text} (hne : w ≠ []) (h : ∀ c ∈ w, isWord c = true) {c : Char}
    (hc : isWord c = false) (u : Text) :
    lex (.code []) (w ++ c :: u) = .word w :: lex (.code []) (c :: u) := by
  have hend : endWord w = [.word w] := if_neg hne
  have hnone : endWord [] = [] := if_pos rfl
  rw [lex_append h, List.nil_append, lex, lex, hend, hnone]
  simp only [hc, Bool.false_eq_true, if_false, List.nil_append]
  split
  · rfl
  · split <;> rfl

/-! ## Arguments -/

/-- Whether a token may be part of an argument's value; what it calls has arguments of its own. -/
def Token.isInside (t : Token) : Bool := t != .mark ',' && t != .mark '(' && t != .mark ')'

/-- The arguments that are passed by name: a word in front of a colon, unless it is one of the two
that belong to a class constant. -/
def argumentsOf : List Token → List (Text × List Token)
  | .word name :: .mark ':' :: ts =>
    if ts.head? = some (.mark ':') then argumentsOf ts
    else (name, ts.takeWhile Token.isInside) :: argumentsOf ts
  | _ :: ts => argumentsOf ts
  | [] => []

/-- The arguments that are passed by name in code, in order, each with all of its value. -/
def namedArguments (code : Text) : List (Text × List Token) := argumentsOf (lex (.code []) code)

end EntityScaffold.Source
