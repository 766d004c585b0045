import EntityScaffold.Proofs.Source.LexedLines

/-!
# Blanks at the end of a text

No lexeme begins in the blanks at the end of a text but code, and none goes on into them but a
comment that ends with its line.  So a text is read as it is with them.

* `First.strip` — the lexeme that goes on into the blanks.
* `Reads.strip` — the lexemes of the text without them.
-/

set_option autoImplicit false

namespace EntityScaffold.Source

open Text

theorem isInert_of_isBlank {c : Char} (h : isBlank c = true) : isInert c = true := by
  have hne : ∀ {d : Char}, isBlank d = false → (c == d) = false := fun hd =>
    beq_false_of_ne (ne_of_isBlank h hd)
  rw [isInert, isWord_of_isBlank h, hne (by decide), hne (by decide), hne (by decide),
    hne (by decide)]
  rfl

theorem isBlank_of_opensRemark {t : Text} (h : opensRemark t = true) :
    ∀ c ∈ t.head?, isBlank c = false := by
  have hmark : ∀ c : Char, c = '/' ∨ c = '#' → isBlank c = false := by
    rintro c (rfl | rfl) <;> decide
  match t with
  | [] => simp
  | [c] =>
    have : c = '#' := by simpa [opensRemark] using h
    simpa using hmark c (.inr this)
  | c :: d :: t =>
    have : c = '/' ∨ c = '#' := by
      simp only [opensRemark, Bool.or_eq_true, Bool.and_eq_true, beq_iff_eq] at h
      exact h.imp And.left And.left
    simpa using hmark c this

/-- Of the lexemes that hold more than one character only a comment that ends with its line may end
with blanks, and it is one without them. -/
theorem First.strip {t w rest s : Text} {l : Lexeme} (h : First s l rest) (htext : l.text = t ++ w)
    (ht : t ≠ []) (hne : w ≠ []) (hw : ∀ c ∈ w, isBlank c = true) :
    l = .remark (t ++ w) ∧ First t (.remark t) [] := by
  -- otherwise the last character is not blank
  have hlast : ∀ {p : Text} {c : Char}, isBlank c = false → p ++ [c] ≠ t ++ w := by
    intro p c hc heq
    have := congrArg List.getLast? heq
    rw [List.getLast?_concat, getLast?_append_of_ne_nil t hne] at this
    rw [hw c (List.mem_of_getLast? this.symm)] at hc
    cases hc
  cases h with
  | @literal q _ body _ hq =>
    have hquote : isBlank q = false := by rcases hq with rfl | rfl <;> decide
    exact absurd htext (hlast (p := q :: body) hquote)
  | @block _ body _ =>
    have hsplit : (Lexeme.block body).text = ("/*" ++ body ++ ['*']) ++ ['/'] := by
      simp [Lexeme.text]
    exact absurd (hsplit ▸ htext) (hlast (by decide))
  | @remark r _ hopen hline =>
    obtain rfl : r = t ++ w := htext
    have hopens := opensRemark_of_blanks hopen (isBlank_of_opensRemark hopen) hw
    have hremark : First (t ++ []) (.remark t) [] :=
      .remark hopens (fun hmem => hline (List.mem_append_left _ hmem)) (by simp)
    rw [List.append_nil] at hremark
    exact ⟨rfl, hremark⟩
  | @heredoc _ opening label inside body closing _ hopen h =>
    have hname := (heredocOpening?_eq_some_iff.mp hopen).1.isName
    obtain ⟨⟨y, -, rfl⟩, -⟩ := (heredocClosing?_eq_some_iff hname).mp (closing_of_untilLabel h)
    obtain ⟨z, d, hz⟩ : ∃ z d, label = z ++ [d] := by
      rcases List.eq_nil_or_concat label with rfl | ⟨z, d, hz⟩
      · obtain ⟨c, u, hlabel, -⟩ := hname
        cases hlabel
      · exact ⟨z, d, by rw [hz, List.concat_eq_append]⟩
    have hd : isBlank d = false := hname.isBlank d (by simp [hz])
    have hsplit : (Lexeme.heredoc ("<<<" ++ opening) body (y ++ label)).text =
        ("<<<" ++ opening ++ body ++ y ++ z) ++ [d] := by
      simp [Lexeme.text, hz]
    exact absurd (hsplit ▸ htext) (hlast hd)
  | arrows =>
    have hsplit : (Lexeme.code "<<<").text = "<<" ++ ['<'] := rfl
    exact absurd (hsplit ▸ htext) (hlast (by decide))
  | code =>
    have := congrArg List.length htext
    have := List.length_pos_iff.mpr ht
    have := List.length_pos_iff.mpr hne
    simp [Lexeme.text] at *
    omega

/-- **Blanks at the end of a text hold none of its lexemes**: without them it is read to its end,
too, with the same lexemes but for a comment that is shorter. -/
theorem Reads.strip {t u : Text} {ls : List Lexeme} (h : Reads (t ++ u) ls [])
    (hu : ∀ c ∈ u, isBlank c = true) :
    ∃ ks, Reads t ks [] ∧ (∀ k ∈ ks, k ∈ ls ∨ ∃ r, k = .remark r) ∧
      ∃ m, ls.flatMap Lexeme.shown = ks.flatMap Lexeme.shown ++ m := by
  have hinert : ∀ c ∈ u.head?, isInert c = true :=
    fun c hc => isInert_of_isBlank (hu c (List.mem_of_mem_head? hc))
  induction ls generalizing t with
  | nil =>
    have := h.eq_append
    simp only [List.flatMap_nil, List.append_nil, List.append_eq_nil_iff] at this
    obtain ⟨rfl, -⟩ := this
    exact ⟨[], .done [], by simp, [], rfl⟩
  | cons l ls ih =>
    by_cases ht : t = []
    · subst ht
      exact ⟨[], .done [], by simp, _, rfl⟩
    cases h with
    | @next _ v _ _ _ hfirst hmore =>
      -- a lexeme in front of the blanks stays
      have hstay : ∀ w, t = l.text ++ w → v = w ++ u → ∃ ks, Reads t ks [] ∧
          (∀ k ∈ ks, k ∈ l :: ls ∨ ∃ r, k = .remark r) ∧
            ∃ m, (l :: ls).flatMap Lexeme.shown = ks.flatMap Lexeme.shown ++ m := by
        rintro w rfl rfl
        obtain ⟨ks, hks, hsub, m, hm⟩ := ih hmore
        rw [List.append_assoc] at hfirst
        have hswap := hfirst.swap (swappable_nil hinert) fun _ hnone => by
          rw [List.append_nil]
          exact heredocOpening?_of_append hnone
        rw [List.append_nil] at hswap
        refine ⟨l :: ks, .next hswap hks, fun k hk => ?_, m, by simp [hm]⟩
        rcases List.mem_cons.mp hk with rfl | hk
        · exact .inl List.mem_cons_self
        · exact (hsub k hk).imp_left (List.mem_cons_of_mem l)
      rcases List.append_eq_append_iff.mp hfirst.eq_append with ⟨w, htext, rfl⟩ | ⟨w, hw, hv⟩
      · by_cases hne : w = []
        · subst hne
          exact hstay [] (by simpa using htext.symm) rfl
        · obtain ⟨rfl, hremark⟩ :=
            hfirst.strip htext ht hne fun c hc => hu c (List.mem_append_left _ hc)
          refine ⟨[.remark t], .next hremark (.done []), ?_, hide w ++ ls.flatMap Lexeme.shown, ?_⟩
          · simp
          · simp [Lexeme.shown, hide]
      · exact hstay w hw hv

end EntityScaffold.Source
