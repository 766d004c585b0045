import EntityScaffold.Proofs.Accepted
import EntityScaffold.Proofs.Rendered.QuotedArguments

/-!
# Relations whose join tables have unusual names

The names in a join table may be any texts.  The mask shows blanks in their place, so as long as
each stands for itself between single quotes, on one line, a relation's property is read as it is
with plain names.

* `Relation.blanked` — the relation with plain names in its join table, of which the mask shows the
  same.
* `legible_relationRows` — the property of the relation is read as one property.
* `Validation.relationText_of_isValid` — so it is for the relations of an accepted plan, and what
  its attribute passes on is what the plan says.
-/

set_option autoImplicit false

namespace EntityScaffold

open Text Source

/-- A text that stands for itself between single quotes, on one line. -/
def IsLiteral (t : Text) : Prop := Verbatim t ∧ '\n' ∉ t

theorem Source.Plain.isLiteral {t : Text} (h : Plain t) : IsLiteral t :=
  ⟨.of_notMem (h.notMem (by decide)) (h.notMem (by decide)), h.notMem (by decide)⟩

theorem JoinTable.IsPlain.isLiteral {j : JoinTable} (h : j.IsPlain) :
    ∀ t ∈ j.strings, IsLiteral t := by
  simp only [JoinTable.strings, List.forall_mem_cons]
  exact ⟨h.1.isLiteral, h.2.1.isLiteral, h.2.2.isLiteral, by simp⟩

/-! ## Plain names in place of the others -/

/-- The join table with plain names of the same lengths. -/
def JoinTable.blanked (j : JoinTable) : JoinTable where
  name := List.replicate j.name.length '_'
  joinColumn := List.replicate j.joinColumn.length '_'
  inverseColumn := List.replicate j.inverseColumn.length '_'

def Relation.blanked (r : Relation) : Relation :=
  { r with joinTable := r.joinTable.map JoinTable.blanked }

theorem plain_replicate (n : Nat) : Plain (List.replicate n '_') := by
  intro c hc
  rw [List.eq_of_mem_replicate hc]
  decide

theorem isPlain_blanked (j : JoinTable) : j.blanked.IsPlain :=
  ⟨plain_replicate _, plain_replicate _, plain_replicate _⟩

theorem hide_replicate {t : Text} (h : '\n' ∉ t) :
    hide (List.replicate t.length '_') = hide t := by
  have hplain := (plain_replicate t.length).notMem (d := '\n') (by decide)
  rw [Piece.hide_of_oneLine h, Piece.hide_of_oneLine hplain, List.length_replicate]

section

variable {r : Relation} {property target : Text}

/-- The mask shows the same of the arguments. -/
theorem shown_pieces (hjoin : ∀ j ∈ r.joinTable, ∀ t ∈ j.strings, '\n' ∉ t) :
    (Row.ofPieces (r.pieces target)).shown = (Row.ofPieces (r.blanked.pieces target)).shown := by
  have hpieces : ∀ shown, (joinPieces shown r.joinTable).flatMap Piece.shown =
      (joinPieces shown r.blanked.joinTable).flatMap Piece.shown := by
    intro shown
    rw [Relation.blanked]
    cases hj : r.joinTable with
    | none => rfl
    | some j =>
      cases shown with
      | false => rfl
      | true =>
        have hlines := hjoin j hj
        simp only [JoinTable.strings, List.forall_mem_cons] at hlines
        simp only [Option.map_some, joinPieces, if_true, List.flatMap_cons, Piece.shown,
          JoinTable.blanked, hide_replicate hlines.1, hide_replicate hlines.2.1,
          hide_replicate hlines.2.2.1]
  simp only [Row.ofPieces, Relation.pieces, relationPieces, List.flatMap_append, hpieces]
  rfl

/-- The mask shows the same of the property. -/
theorem shown_rows (hjoin : ∀ j ∈ r.joinTable, ∀ t ∈ j.strings, '\n' ∉ t) :
    (r.rows property target).map (·.shown) = (r.blanked.rows property target).map (·.shown) := by
  have hrow : ∀ args : List Piece,
      (Row.ofPieces (attributePieces r.kind.attributeClass args)).shown =
        "#[" ++ (r.kind.attributeClass ++ ("(" ++ ((Row.ofPieces args).shown ++ ")]"))) := by
    intro args
    simp [Row.ofPieces, attributePieces, Piece.shown]
  have hkind : r.blanked.kind = r.kind := rfl
  simp only [Relation.rows, propertyRows, List.map_append, List.map_cons, hkind, hrow,
    shown_pieces hjoin]

/-! ## The attribute -/

theorem shows_ofPieces {ps : List Piece} (h : ∀ p ∈ ps, Shows p.text p.shown) :
    Shows (Row.ofPieces ps).text (Row.ofPieces ps).shown := by
  induction ps with
  | nil => exact .nil
  | cons p ps ih =>
    exact (h p (by simp)).append (ih fun q hq => h q (List.mem_cons_of_mem p hq))

/-- The pieces of the attribute are shown, and none goes on over the end of the line. -/
theorem shows_attributePieces (htarget : Capital target) (hother : ∀ o ∈ r.otherProperty, Plain o)
    (hjoin : ∀ j ∈ r.joinTable, ∀ t ∈ j.strings, IsLiteral t) :
    ∀ p ∈ attributePieces r.kind.attributeClass (r.pieces target),
      Shows p.text p.shown ∧ '\n' ∉ p.text := by
  have hcode : ∀ {t : Text}, (∀ c ∈ t, isCode c = true ∧ c ≠ '\n') →
      Shows (Piece.code t).text (Piece.code t).shown ∧ '\n' ∉ (Piece.code t).text :=
    fun h => ⟨.code fun c hc => (h c hc).1, fun hmem => (h _ hmem).2 rfl⟩
  have hword : ∀ {t : Text}, Plain t → ∀ c ∈ t, isCode c = true ∧ c ≠ '\n' := fun h c hc =>
    ⟨isCode_of_isAsciiWord (h c hc), ne_of_isAsciiWord (h c hc) (by decide)⟩
  have hquoted : ∀ {t : Text}, IsLiteral t →
      Shows (Piece.quoted t).text (Piece.quoted t).shown ∧ '\n' ∉ (Piece.quoted t).text := by
    rintro t ⟨hverbatim, hline⟩
    refine ⟨hverbatim.shows, ?_⟩
    simp only [Piece.text, List.mem_cons, List.mem_append, List.not_mem_nil, or_false, not_or]
    exact ⟨by decide, hline, by decide⟩
  intro p hp
  simp only [attributePieces, List.mem_cons, List.mem_append, List.not_mem_nil, or_false] at hp
  rcases hp with rfl | rfl | rfl | hp | rfl
  · exact ⟨.attribute, by decide⟩
  · exact hcode (hword (by cases r.kind <;> decide))
  · exact hcode (by decide)
  · revert p
    refine forall_relationPieces (fun t ht => hcode ?_) (hcode (hword htarget.1))
      (fun o ho => hquoted (hother o ho).isLiteral) (fun j hj => ?_) _ _ _
    · revert t
      decide
    · have := hjoin j hj
      simp only [JoinTable.strings, List.forall_mem_cons] at this
      exact ⟨hquoted this.1, hquoted this.2.1, hquoted this.2.2.1⟩
  · exact hcode (by decide)

/-- The line of the attribute. -/
theorem flush_attributeRow (htarget : Capital target) (hother : ∀ o ∈ r.otherProperty, Plain o)
    (hjoin : ∀ j ∈ r.joinTable, ∀ t ∈ j.strings, IsLiteral t) :
    Flush (Row.ofPieces (attributePieces r.kind.attributeClass (r.pieces target))).text := by
  have hstart : (Row.ofPieces (attributePieces r.kind.attributeClass (r.pieces target))).text =
      '#' :: '[' :: (r.kind.attributeClass ++ ("(" ++ (piecesText (r.pieces target) ++ ")]"))) := by
    simp [Row.ofPieces, attributePieces, Piece.text, piecesText]
  refine ⟨fun c hc => ?_, fun c hc => ?_, fun hmem => ?_, ?_⟩
  · rw [hstart] at hc
    cases hc
    decide
  · have hassoc : ∀ k o a e : Text, '#' :: '[' :: (k ++ (o ++ (a ++ e))) =
        ('#' :: '[' :: (k ++ (o ++ a))) ++ e := by
      intros
      simp only [List.append_assoc, List.cons_append]
    rw [hstart, hassoc, getLast?_append_of_ne_nil _ (by decide)] at hc
    cases hc
    decide
  · obtain ⟨p, hp, hmem⟩ := List.mem_flatMap.mp hmem
    exact (shows_attributePieces htarget hother hjoin p hp).2 hmem
  · rw [hstart]
    simp

/-- **The property of a relation is read as one property**, whatever literals are the names in its
join table. -/
theorem legible_relationRows (hproperty : Name property) (htarget : Capital target)
    (hother : ∀ o ∈ r.otherProperty, Plain o)
    (hjoin : ∀ j ∈ r.joinTable, ∀ t ∈ j.strings, IsLiteral t) :
    Legible (.property (relationProperty r property target)) (r.rows property target) := by
  have hplain : ∀ j ∈ r.blanked.joinTable, j.IsPlain := by
    intro j hj
    obtain ⟨k, -, rfl⟩ := Option.map_eq_some_iff.mp hj
    exact isPlain_blanked k
  have hblanked := (tidy_relationRows (r := r.blanked) hproperty htarget hother hplain).legible
  -- but for the line of the attribute the rows are the same
  have hattribute := flush_attributeRow htarget hother hjoin
  have hrows : ∀ q ∈ r.rows property target, q ∈ r.blanked.rows property target ∨
      q = Row.ofPieces (attributePieces r.kind.attributeClass (r.pieces target)) := by
    intro q hq
    simp only [Relation.rows, propertyRows, List.mem_append, List.mem_cons, List.not_mem_nil,
      or_false] at hq ⊢
    rcases hq with hq | rfl | rfl
    · exact .inl (.inl hq)
    · exact .inr rfl
    · exact .inl (.inr (.inr rfl))
  have hfirst : ∃ q qs, r.rows property target = q :: qs ∧ Flush q.text := by
    obtain ⟨q, qs, hq, hflush⟩ := hblanked.flush
    rw [Relation.rows, propertyRows] at hq ⊢
    cases hfront : elementsRows r.kind target with
    | nil => exact ⟨_, _, rfl, hattribute⟩
    | cons row rows =>
      have hkind : r.blanked.kind = r.kind := rfl
      rw [hkind, hfront] at hq
      cases hq
      exact ⟨_, _, rfl, hflush⟩
  have hlegible := hblanked.of_shown (shown_rows fun j hj t ht => (hjoin j hj t ht).2) hfirst
    (fun q hq => ?_) (fun q hq => ?_)
  · rw [text_relationRows] at hlegible
    exact hlegible
  · rcases hrows q hq with hq | rfl
    · exact hblanked.shows q hq
    · exact shows_ofPieces fun p hp => (shows_attributePieces htarget hother hjoin p hp).1
  · rcases hrows q hq with hq | rfl
    · exact hblanked.inked q hq
    · exact hattribute.inked

end

/-! ## Relations of an accepted plan -/

namespace Validation

variable {p : Plan} {known : Option (List Text)} {r s : Relation}

/-- The property given for the other side has an accepted name. -/
theorem isIdentifier_of_other (hvalid : (validatePlan p known).isValid = true)
    (hr : r ∈ p.relations) {other : Text} (hother : r.otherProperty = some other) :
    isIdentifier other = true := by
  have heach := relationIssues_of_isValid hvalid hr
  simp only [relationIssues, hother, harmless_append] at heach
  exact of_harmless_ite rfl heach.1.1.1.1.2

/-- **What an accepted plan says of a relation is what its attribute passes on**, and the property
is read as one property with its name: for names on one line, and names in the join table that
are literals. -/
theorem relationText_of_isValid (hvalid : (validatePlan p known).isValid = true)
    (hr : r ∈ p.relations) (hresolve : r.resolve p.name = .ok s) (hself : '\n' ∉ p.name)
    (hproperty : '\n' ∉ r.propertyOrSuggested) (htarget : '\n' ∉ r.targetName)
    (hother : ∀ o ∈ r.otherProperty, '\n' ∉ o)
    (hjoin : ∀ j ∈ r.joinTable, ∀ t ∈ j.strings, IsLiteral t) :
    s.property = some r.propertyOrSuggested ∧
      parseMember (Edit.relationText s r.propertyOrSuggested s.targetName) =
        .ok (.property (relationProperty s r.propertyOrSuggested s.targetName)) ∧
      namedArguments (Edit.relationText s r.propertyOrSuggested s.targetName) =
        s.passed s.targetName := by
  have haccepted := accepted_of_isValid hvalid
  have hresolved := resolved_of_resolve hresolve
  have hname := name_of_notMem hproperty (haccepted.properties r hr)
  have hcapital : Capital s.targetName := by
    rw [hresolved.targetName]
    exact capital_of_notMem htarget (haccepted.targets r hr)
  have hown : Plain p.name :=
    (capital_of_notMem hself (isClassName_of_isEntityName haccepted.name)).1
  have hothers : ∀ o ∈ s.otherProperty, Plain o := by
    intro o ho
    rw [hresolved.other] at ho
    split at ho
    · cases ho
      exact plain_suggestProperty hown r.kind.inverse
    · exact (name_of_notMem (hother o ho) (isIdentifier_of_other hvalid hr ho)).plain
  have hstrings : ∀ j ∈ s.joinTable, ∀ t ∈ j.strings, IsLiteral t := by
    intro j hj
    rw [hresolved.joinTable] at hj
    split at hj
    · cases hj
      cases hgiven : r.joinTable with
      | none => exact (isPlain_defaultJoinTable p.name r.targetName).isLiteral
      | some j => exact hjoin j hgiven
    · cases hj
  exact ⟨hresolved.property,
    parseMember_of_legible (legible_relationRows hname hcapital hothers hstrings),
    namedArguments_relationText hname hcapital (fun o ho => (hothers o ho).isLiteral.1)
      fun j hj t ht => (hstrings j hj t ht).1⟩

end Validation

end EntityScaffold
