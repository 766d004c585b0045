import EntityScaffold.Proofs.Source.Pieces

/-!
# Rows of a member

A member of a class as its lines, each with what the mask shows of it, and what the reading of a
class body finds of it at any indentation: its mask, its extent, and that the braces within it
match.

* `Row` — a line and its mask; `Row.Sound` — it does not disturb the reading of the file.
* `Row.ofPieces_sound` — a line made of pieces is sound if `Piece.scan` gets through.
* `Complete` — rows that end as a member does; `Complete.extent`, `Complete.closing`.
-/

set_option autoImplicit false

namespace EntityScaffold.Source

open Text

/-- A line and what the mask shows of it. -/
structure Row where
  text : Text
  shown : Text

/-- The line can stand anywhere in a class body. -/
structure Row.Sound (r : Row) : Prop where
  shows : Shows r.text r.shown
  inked : Inked r.text
  words : ∃ words, headRun headWords r.shown = some words ∧ words.contains [] = false
  after : equalRun false r.text = some false

namespace Piece

/-- The readers of a class file at the beginning of a line. -/
def lineStart : Scan := ⟨headWords, false, []⟩

def scanAll (s : Scan) (ps : List Piece) : Option Scan := ps.foldlM scan s

theorem scanAll_cons (s : Scan) (p : Piece) (ps : List Piece) :
    scanAll s (p :: ps) = (p.scan s).bind (scanAll · ps) := rfl

/-- Whether the last piece ends with something to see. -/
def endsInked (ps : List Piece) : Bool :=
  match ps.getLast? with
  | some (.code t) => t.getLast?.any (!isBlank ·)
  | some (.type _) | some (.elements _) => true
  | _ => false

/-- Whether a line may consist of these pieces: every reader gets through and has counted all
brackets at its end. -/
def fits (ps : List Piece) : Bool :=
  endsInked ps && match scanAll lineStart ps with
    | some s => !s.words.contains [] && !s.after && s.openers.isEmpty
    | none => false

end Piece

/-- The line that consists of the pieces. -/
def Row.ofPieces (ps : List Piece) : Row := ⟨ps.flatMap Piece.text, ps.flatMap Piece.shown⟩

theorem Piece.sound_of_scanAll {ps : List Piece} {s s' : Scan} (hp : ∀ p ∈ ps, p.IsPlain)
    (h : scanAll s ps = some s') :
    Shows (Row.ofPieces ps).text (Row.ofPieces ps).shown ∧
    headRun s.words (Row.ofPieces ps).shown = some s'.words ∧
    equalRun s.after (Row.ofPieces ps).text = some s'.after ∧
    bracketRun s.openers (Row.ofPieces ps).shown = some s'.openers ∧
    '\n' ∉ (Row.ofPieces ps).text ∧ '\x7b' ∉ (Row.ofPieces ps).shown ∧
    '\x7d' ∉ (Row.ofPieces ps).shown := by
  induction ps generalizing s with
  | nil =>
    cases h
    exact ⟨.nil, rfl, rfl, rfl, by simp [Row.ofPieces], by simp [Row.ofPieces],
      by simp [Row.ofPieces]⟩
  | cons p ps ih =>
    rw [scanAll_cons, Option.bind_eq_some_iff] at h
    obtain ⟨m, hm, h⟩ := h
    have hone := sound_of_scan (hp p (by simp)) hm
    obtain ⟨h₁, h₂, h₃, h₄, h₅, h₆, h₇⟩ := ih (fun q hq => hp q (List.mem_cons_of_mem p hq)) h
    simp only [Row.ofPieces, List.flatMap_cons] at *
    refine ⟨hone.shows.append h₁, ?_, ?_, ?_, ?_, ?_, ?_⟩
    · rw [headRun_append, hone.words, Option.bind_some, h₂]
    · rw [equalRun_append, hone.after, Option.bind_some, h₃]
    · rw [bracketRun_append, hone.openers, Option.bind_some, h₄]
    · simp [hone.oneLine, h₅]
    · simp [hone.opening, h₆]
    · simp [hone.closing, h₇]

theorem Piece.last_of_endsInked {ps : List Piece} (hp : ∀ p ∈ ps, p.IsPlain)
    (h : endsInked ps = true) :
    ∃ c, (Row.ofPieces ps).text.getLast? = some c ∧ isBlank c = false := by
  have hlast : ∀ (qs : List Piece) (q : Piece) (c : Char), q.text.getLast? = some c →
      (Row.ofPieces (qs ++ [q])).text.getLast? = some c := by
    intro qs q c hc
    have hne : q.text ≠ [] := by
      intro hnil
      rw [hnil] at hc
      cases hc
    simp only [Row.ofPieces, List.flatMap_append, List.flatMap_cons, List.flatMap_nil,
      List.append_nil]
    rw [getLast?_append_of_ne_nil _ hne, hc]
  rcases List.eq_nil_or_concat ps with rfl | ⟨qs, q, rfl⟩
  · cases h
  · rw [List.concat_eq_append] at *
    simp only [endsInked, List.getLast?_concat] at h
    cases q with
    | code t =>
      have h : t.getLast?.any (!isBlank ·) = true := h
      cases hc : t.getLast? with
      | none =>
        rw [hc] at h
        cases h
      | some c =>
        rw [hc] at h
        exact ⟨c, hlast qs _ c hc, by simpa using h⟩
    | type t =>
      have ht : IsType t := hp (.type t) (by simp)
      obtain ⟨c, hc⟩ : ∃ c, t.getLast? = some c := by
        cases hl : t.getLast? with
        | none => exact absurd (List.getLast?_eq_none_iff.mp hl) ht.content
        | some c => exact ⟨c, rfl⟩
      have hblank := forall_isTypeChar (p := fun c => !isBlank c) (by decide)
        (ht.chars c (List.mem_of_getLast? hc))
      exact ⟨c, hlast qs _ c hc, by simpa using hblank⟩
    | name t => cases h
    | quoted t => cases h
    | group => cases h
    | elements t =>
      refine ⟨'/', hlast qs _ '/' ?_, by decide⟩
      rw [text, getLast?_append_of_ne_nil _ (by simp)]
      rfl

/-- **A line made of pieces is sound and level** if the readers get through. -/
theorem Row.ofPieces_sound {ps : List Piece} (h : Piece.fits ps = true)
    (hp : ∀ p ∈ ps, p.IsPlain) :
    (Row.ofPieces ps).Sound ∧ Level (Row.ofPieces ps).shown := by
  simp only [Piece.fits, Bool.and_eq_true] at h
  obtain ⟨hends, h⟩ := h
  split at h
  · rename_i s hs
    simp only [Bool.and_eq_true, Bool.not_eq_true', List.isEmpty_iff] at h
    obtain ⟨⟨hwords, hafter⟩, hopeners⟩ := h
    obtain ⟨h₁, h₂, h₃, h₄, h₅, h₆, h₇⟩ := Piece.sound_of_scanAll hp hs
    obtain ⟨c, hc, hblank⟩ := Piece.last_of_endsInked hp hends
    refine ⟨⟨h₁, ⟨?_, h₅, ?_⟩, ⟨_, h₂, hwords⟩, ?_⟩, ⟨?_, h₆, h₇⟩⟩
    · intro d hd
      rw [hc] at hd
      cases hd
      exact hblank
    · intro hnil
      rw [hnil] at hc
      cases hc
    · rw [hafter] at h₃
      exact h₃
    · rw [hopeners] at h₄
      exact h₄
  · cases h

/-- The line of a brace. -/
def Row.brace (c : Char) : Row := ⟨[c], [c]⟩

theorem Row.brace_sound {c : Char} (hc : c = '\x7b' ∨ c = '\x7d') : (Row.brace c).Sound where
  shows := .code (by rcases hc with rfl | rfl <;> decide)
  inked := ⟨by rcases hc with rfl | rfl <;> decide, by rcases hc with rfl | rfl <;> decide,
    by simp [Row.brace]⟩
  words := ⟨headWords, by rcases hc with rfl | rfl <;> decide, by decide⟩
  after := by rcases hc with rfl | rfl <;> decide

/-! ## Rows behind an indentation -/

/-- The spaces and tabs of an indentation. -/
def IsIndent (i : Text) : Prop := ∀ c ∈ i, isSpaceTab c = true

/-- The text of rows, all but the first one behind the indentation. -/
def hung (i : Text) : List Text → Text
  | [] => []
  | l :: ls => ofLines (l :: ls.map (i ++ ·))

theorem indent_hung (i l : Text) (ls : List Text) :
    i ++ hung i (l :: ls) = ofLines ((l :: ls).map (i ++ ·)) := by
  cases ls with
  | nil => rfl
  | cons k ks =>
    rw [hung, List.map_cons (l := k :: ks), ofLines_cons (l := l) (by simp),
      ofLines_cons (l := i ++ l) (by simp), List.append_assoc]

theorem hung_nil (l : Text) (ls : List Text) : hung [] (l :: ls) = ofLines (l :: ls) := by
  have : ls.map (([] : Text) ++ ·) = ls := by simp
  rw [hung, this]

theorem IsIndent.isBlank {i : Text} (h : IsIndent i) : ∀ c ∈ i, isBlank c = true :=
  fun c hc => isBlank_of_isSpaceTab (h c hc)

theorem IsIndent.level {i : Text} (h : IsIndent i) : Level i := by
  refine .of_plain fun c hc => ?_
  have := h c hc
  simp only [isSpaceTab, Bool.or_eq_true, beq_iff_eq] at this
  rcases this with rfl | rfl <;> decide

theorem IsIndent.notMem {i : Text} (h : IsIndent i) {c : Char} (hc : isSpaceTab c = false) :
    c ∉ i := by
  intro hm
  rw [h c hm] at hc
  cases hc

theorem IsIndent.shows {i : Text} (h : IsIndent i) : Shows i i := by
  refine .code fun c hc => ?_
  have := h c hc
  simp only [isSpaceTab, Bool.or_eq_true, beq_iff_eq] at this
  rcases this with rfl | rfl <;> decide

/-- Rows show what they show line by line. -/
theorem shows_ofLines {rows : List Row} (h : ∀ r ∈ rows, Shows r.text r.shown) :
    Shows (ofLines (rows.map (·.text))) (ofLines (rows.map (·.shown))) := by
  induction rows with
  | nil => exact .nil
  | cons r rows ih =>
    have hr := h r (by simp)
    cases rows with
    | nil => exact hr
    | cons q qs =>
      have hrest := ih fun p hp => h p (List.mem_cons_of_mem r hp)
      have hfeed : Shows ['\n'] ['\n'] := .code (by decide)
      have hcons : ∀ f : Row → Text, ofLines ((r :: q :: qs).map f) =
          f r ++ '\n' :: ofLines ((q :: qs).map f) := fun f => ofLines_cons (by simp)
      rw [hcons, hcons]
      exact hr.append (hfeed.append hrest)

/-- A row behind an indentation. -/
def Row.indented (i : Text) (r : Row) : Row := ⟨i ++ r.text, i ++ r.shown⟩

/-- Rows behind an indentation show what they show, behind that indentation. -/
theorem shows_hung {i : Text} (hi : IsIndent i) {r : Row} {rows : List Row}
    (h : ∀ q ∈ r :: rows, Shows q.text q.shown) :
    Shows (hung i (r.text :: rows.map (·.text))) (hung i (r.shown :: rows.map (·.shown))) := by
  have hrows : ∀ q ∈ r :: rows.map (Row.indented i), Shows q.text q.shown := by
    intro q hq
    rcases List.mem_cons.mp hq with rfl | hq
    · exact h q List.mem_cons_self
    · obtain ⟨p, hp, rfl⟩ := List.mem_map.mp hq
      exact hi.shows.append (h p (List.mem_cons_of_mem r hp))
  simpa [hung, Row.indented, Function.comp_def] using shows_ofLines hrows

theorem headRun_indent {i : Text} (hi : IsIndent i) : headRun headWords i = some headWords := by
  induction i with
  | nil => rfl
  | cons c i ih =>
    have hc : headStep headWords c = some headWords := by
      rw [headStep, if_pos (hi.isBlank c (by simp)), if_neg (by decide)]
    rw [headRun_cons, hc, Option.bind_some]
    exact ih fun d hd => hi d (List.mem_cons_of_mem c hd)

theorem equalRun_indent {i : Text} (hi : IsIndent i) : equalRun false i = some false := by
  induction i with
  | nil => rfl
  | cons c i ih =>
    have hc : c ≠ '=' := by
      rintro rfl
      exact hi.notMem (c := '=') (by decide) List.mem_cons_self
    rw [equalRun_cons, equalStep, if_neg hc]
    simp only [Bool.false_eq_true, if_false, Option.bind_some]
    exact ih fun d hd => hi d (List.mem_cons_of_mem c hd)

theorem Row.Sound.indented {r : Row} (h : r.Sound) {i : Text} (hi : IsIndent i) :
    (r.indented i).Sound where
  shows := hi.shows.append h.shows
  inked := h.inked.indented (hi.notMem (by decide))
  words := by
    obtain ⟨words, hw, hc⟩ := h.words
    exact ⟨words, by rw [Row.indented, headRun_append, headRun_indent hi, Option.bind_some, hw], hc⟩
  after := by rw [Row.indented, equalRun_append, equalRun_indent hi, Option.bind_some, h.after]

/-! ## Rows that are one member -/

theorem Level.ofLines {ls : List Text} (h : ∀ l ∈ ls, Level l) : Level (ofLines ls) :=
  ofLines_induction .nil (.of_plain (by decide)) (fun _ _ => .append) h

theorem notMem_ofLines {c : Char} (hc : c ≠ '\n') {ls : List Text} (h : ∀ l ∈ ls, c ∉ l) :
    c ∉ ofLines ls :=
  ofLines_induction (P := (c ∉ ·)) (by simp) (by simp [hc])
    (fun s t hs ht => by simp [hs, ht]) h

/-- Rows that end as a member without a block does: with their only semicolon. -/
structure IsStatement (shown : List Text) : Prop where
  ends : ∃ ls l, shown = ls ++ [l ++ [';']] ∧ (∀ k ∈ ls ++ [l], Level k ∧ ';' ∉ k)

/-- Rows that end as a member with a block does: with the brace that closes it. -/
structure IsBlock (shown : List Text) : Prop where
  ends : ∃ hs bs, shown = hs ++ ['\x7b'] :: bs ++ [['\x7d']] ∧ hs ≠ [] ∧
    (∀ k ∈ hs, Level k ∧ ';' ∉ k) ∧ ∀ k ∈ bs, Level k

/-- The text is read as one member, up to its end and no further. -/
structure Complete (m : Text) : Prop where
  extent : ∀ u, ∃ block, extent? (m ++ u) = some ⟨m.length, block⟩
  closing : ∀ u, closingBrace? 1 (m ++ u) = (closingBrace? 1 u).map (m.length + ·)

theorem complete_of_statement {s : Text} (hs : Level s) (hsemi : ';' ∉ s) :
    Complete (s ++ [';']) where
  extent u := by
    refine ⟨none, ?_⟩
    have := extent?_statement hs hsemi u
    simpa using this
  closing u := by
    refine closingBrace?_append ?_ ?_ 1
    · simp [hs.opening]
    · simp [hs.closing]

theorem complete_of_block {h b : Text} (hh : Level h) (hsemi : ';' ∉ h) (hb : Level b) :
    Complete (h ++ ['\x7b'] ++ b ++ ['\x7d']) where
  extent u := by
    refine ⟨some (h.length, h.length + b.length + 1), ?_⟩
    have := extent?_block hh hsemi hb u
    simp only [List.append_assoc, List.cons_append, List.nil_append]
    rw [this]
    simp only [List.length_append, List.length_cons, List.length_nil, Option.some.injEq,
      Extent.mk.injEq, and_true]
    omega
  closing u := by
    have := closingBrace?_block (u := u) hh hb
    simpa using this

theorem IsStatement.complete {ls : List Text} (h : IsStatement ls) {i : Text} (hi : IsIndent i) :
    Complete (hung i ls) := by
  obtain ⟨ks, l, rfl, hlevel⟩ := h.ends
  -- the semicolon stands behind everything else
  have hend : hung i (ks ++ [l ++ [';']]) = hung i (ks ++ [l]) ++ [';'] := by
    cases ks with
    | nil => rfl
    | cons k ks =>
      have := ofLines_glue (k :: ks.map (i ++ ·)) (i ++ l) [';'] []
      simp only [hung, List.cons_append, List.map_append, List.map_cons, List.map_nil,
        ofLines_singleton, List.append_assoc] at this ⊢
      exact this.symm
  have hparts : ∀ k ∈ ks ++ [l], Level (i ++ k) ∧ ';' ∉ i ++ k := fun k hk =>
    ⟨hi.level.append (hlevel k hk).1, by simp [hi.notMem (c := ';') (by decide), (hlevel k hk).2]⟩
  have hlines : ∃ k ms, ks ++ [l] = k :: ms := by
    cases ks with
    | nil => exact ⟨l, [], rfl⟩
    | cons k ks => exact ⟨k, ks ++ [l], rfl⟩
  rw [hend]
  obtain ⟨k, ms, hkm⟩ := hlines
  rw [hkm] at hparts hlevel ⊢
  have hall : ∀ t ∈ k :: ms.map (i ++ ·), Level t ∧ ';' ∉ t := by
    intro t ht
    rcases List.mem_cons.mp ht with rfl | ht
    · exact hlevel t (by simp)
    · obtain ⟨m, hm, rfl⟩ := List.mem_map.mp ht
      exact hparts m (List.mem_cons_of_mem k hm)
  exact complete_of_statement (.ofLines fun t ht => (hall t ht).1)
    (notMem_ofLines (by decide) fun t ht => (hall t ht).2)

theorem IsBlock.complete {ls : List Text} (h : IsBlock ls) {i : Text} (hi : IsIndent i) :
    Complete (hung i ls) := by
  obtain ⟨hs, bs, rfl, hne, hhead, hbody⟩ := h.ends
  obtain ⟨l, hs, rfl⟩ := List.exists_cons_of_ne_nil hne
  have hparts : hung i ((l :: hs) ++ ['\x7b'] :: bs ++ [['\x7d']]) =
      ofLines (l :: hs.map (i ++ ·) ++ [i]) ++ ['\x7b'] ++
        ofLines ([] :: bs.map (i ++ ·) ++ [i]) ++ ['\x7d'] := by
    have h₁ := ofLines_glue (l :: hs.map (i ++ ·)) i ['\x7b']
      (bs.map (i ++ ·) ++ [i ++ ['\x7d']])
    have h₂ := ofLines_glue [] ['\x7b'] [] (bs.map (i ++ ·) ++ [i ++ ['\x7d']])
    have h₃ := ofLines_glue ([] :: bs.map (i ++ ·)) i ['\x7d'] []
    simp only [List.nil_append, List.append_nil, ofLines_singleton] at h₁ h₂ h₃
    simp only [hung, List.cons_append, List.map_append, List.map_cons, List.map_nil,
      List.append_assoc] at h₁ h₂ h₃ ⊢
    rw [h₃, h₂, h₁]
  have hlevel : ∀ ks : List Text, (∀ k ∈ ks, Level k) → ∀ k ∈ ks.map (i ++ ·) ++ [i], Level k := by
    intro ks hks k hk
    rcases List.mem_append.mp hk with hk | hk
    · obtain ⟨m, hm, rfl⟩ := List.mem_map.mp hk
      exact hi.level.append (hks m hm)
    · rw [List.mem_singleton.mp hk]
      exact hi.level
  rw [hparts]
  refine complete_of_block (.ofLines ?_) (notMem_ofLines (by decide) ?_) (.ofLines ?_)
  · intro k hk
    rcases List.mem_cons.mp hk with rfl | hk
    · exact (hhead k (by simp)).1
    · exact hlevel hs (fun m hm => (hhead m (List.mem_cons_of_mem l hm)).1) k hk
  · intro k hk
    have hisemi : ';' ∉ i := hi.notMem (by decide)
    rcases List.mem_cons.mp hk with rfl | hk
    · exact (hhead k (by simp)).2
    · rcases List.mem_append.mp hk with hk | hk
      · obtain ⟨m, hm, rfl⟩ := List.mem_map.mp hk
        simp [hisemi, (hhead m (List.mem_cons_of_mem l hm)).2]
      · rw [List.mem_singleton.mp hk]
        exact hisemi
  · intro k hk
    rcases List.mem_cons.mp hk with rfl | hk
    · exact .nil
    · exact hlevel bs hbody k hk

end EntityScaffold.Source
