import EntityScaffold.Proofs.Source.Recognised

/-!
# Generated members

The two shapes of generated members, made of lines that have been checked: a public method, all of
whose lines are code, and a public property behind an attribute.

* `BareLine` — a line that the mask shows as it is; `bareLine_ofPieces`.
* `tidy_methodOf` — a method made of such lines is tidy.
* `tidy_property` — a property behind its attribute is tidy.
-/

set_option autoImplicit false

namespace EntityScaffold.Source

open Text

/-! ## Pieces without a character -/

namespace Piece

/-- Whether the mask shows the piece as it is. -/
def isBare : Piece → Bool
  | .code _ | .name _ | .type _ => true
  | _ => false

/-- Whether the fixed code of a piece is without the character. -/
def avoids (c : Char) : Piece → Bool
  | .code t => !t.contains c
  | .name _ | .type _ | .quoted _ => true
  | .group => c != '#' && c != '['
  | .elements _ => true

/-- A character that is neither shown by the mask nor occurs in names. -/
def isRare (c : Char) : Bool := !isTypeChar c && c != ' ' && c != '\'' && c != '\n'

theorem notMem_shown {c : Char} (hc : isRare c = true) {p : Piece} (hp : p.IsPlain)
    (h : p.avoids c = true) : c ∉ p.shown := by
  simp only [isRare, Bool.and_eq_true, Bool.not_eq_true', bne_iff_ne] at hc
  obtain ⟨⟨⟨htype, hspace⟩, hquote⟩, hfeed⟩ := hc
  have hword : isAsciiWord c = false := by
    cases hw : isAsciiWord c with
    | false => rfl
    | true => simp [isTypeChar, hw] at htype
  have hhide : ∀ t : Text, c ∉ hide t := by
    intro t hm
    obtain ⟨d, _, rfl⟩ := List.mem_map.mp hm
    split at hspace
    · rename_i hd
      rw [if_pos hd] at hfeed
      exact hfeed rfl
    · exact hspace rfl
  cases p with
  | code t =>
    have h : (!t.contains c) = true := h
    simpa [shown] using h
  | name t => exact Plain.notMem hp hword
  | type t => exact IsType.notMem hp htype
  | quoted t =>
    simp only [shown, List.mem_cons, List.mem_append, List.not_mem_nil, or_false, not_or]
    exact ⟨hquote, hhide t, hquote⟩
  | group =>
    simp only [avoids, Bool.and_eq_true, bne_iff_ne] at h
    simpa [shown] using h
  | elements t => exact hhide _

theorem notMem_shownAll {c : Char} (hc : isRare c = true) {ps : List Piece}
    (hp : ∀ p ∈ ps, p.IsPlain) (h : ps.all (·.avoids c) = true) :
    c ∉ (Row.ofPieces ps).shown := by
  intro hm
  obtain ⟨p, hps, hm⟩ := List.mem_flatMap.mp hm
  exact notMem_shown hc (hp p hps) (List.all_eq_true.mp h p hps) hm

theorem shown_of_isBare {ps : List Piece} (h : ps.all isBare = true) :
    (Row.ofPieces ps).shown = (Row.ofPieces ps).text := by
  simp only [Row.ofPieces, List.flatMap_def]
  congr 1
  refine List.map_congr_left fun p hp => ?_
  have := List.all_eq_true.mp h p hp
  cases p <;> first | rfl | cases this

/-- Brackets opened before a text stay open behind it. -/
theorem scan_outer {s s' : Scan} {p : Piece} (h : p.scan s = some s') (os : List Char) :
    p.scan { s with openers := s.openers ++ os } =
      some { s' with openers := s'.openers ++ os } := by
  cases p with
  | code t =>
    simp only [scan, Option.bind_eq_bind] at h ⊢
    split at h
    · simp only [Option.bind_eq_some_iff, Option.some.injEq] at h
      obtain ⟨words, hwords, after, hafter, openers, hopeners, rfl⟩ := h
      rename_i hall
      rw [if_pos hall, hwords, hafter, bracketRun_outer hopeners os]
      rfl
    · cases h
  | name t =>
    simp only [scan] at h ⊢
    split at h
    · rename_i hs
      cases h
      rw [if_pos hs]
    · cases h
  | type t =>
    simp only [scan] at h ⊢
    split at h
    · rename_i hs
      cases h
      rw [if_pos hs]
    · cases h
  | quoted t =>
    cases h
    rfl
  | group =>
    cases h
    rfl
  | elements t =>
    simp only [scan] at h ⊢
    split at h
    · cases h
    · rename_i hs
      cases h
      rw [if_neg hs]

theorem scanAll_outer {s s' : Scan} {ps : List Piece} (h : scanAll s ps = some s')
    (os : List Char) :
    scanAll { s with openers := s.openers ++ os } ps =
      some { s' with openers := s'.openers ++ os } := by
  induction ps generalizing s with
  | nil =>
    cases h
    rfl
  | cons p ps ih =>
    rw [scanAll_cons, Option.bind_eq_some_iff] at h
    obtain ⟨m, hm, h⟩ := h
    rw [scanAll_cons, scan_outer hm, Option.bind_some]
    exact ih h

theorem scanAll_append (s : Scan) (ps qs : List Piece) :
    scanAll s (ps ++ qs) = (scanAll s ps).bind (scanAll · qs) := by
  rw [scanAll, List.foldlM_append]
  rfl

end Piece

/-! ## Methods -/

/-- A line that the mask shows as it is, with matching brackets. -/
structure BareLine (l : Text) : Prop where
  sound : Row.Sound ⟨l, l⟩
  level : Level l
  code : ∀ c ∈ l, isCode c = true

theorem bareLine_ofPieces {ps : List Piece} (hfits : Piece.fits ps = true)
    (hbare : ps.all Piece.isBare = true) (hp : ∀ p ∈ ps, p.IsPlain) :
    BareLine (Row.ofPieces ps).text := by
  obtain ⟨hsound, hlevel⟩ := Row.ofPieces_sound hfits hp
  have hshown := Piece.shown_of_isBare hbare
  have hscan : ∃ s, Piece.scanAll Piece.lineStart ps = some s := by
    simp only [Piece.fits, Bool.and_eq_true] at hfits
    cases hs : Piece.scanAll Piece.lineStart ps with
    | none => simp [hs] at hfits
    | some s => exact ⟨s, rfl⟩
  refine ⟨?_, hshown ▸ hlevel, fun c hc => ?_⟩
  · have hrow : Row.ofPieces ps = ⟨(Row.ofPieces ps).text, (Row.ofPieces ps).text⟩ :=
      congrArg (Row.mk _) hshown
    rw [hrow] at hsound
    exact hsound
  · obtain ⟨p, hps, hc⟩ := List.mem_flatMap.mp hc
    have hpb := List.all_eq_true.mp hbare p hps
    cases p with
    | code t =>
      -- the code of a piece that has been read consists of code characters
      obtain ⟨s, hs⟩ := hscan
      have hall : ∀ (qs : List Piece) (s s' : Piece.Scan), Piece.scanAll s qs = some s' →
          .code t ∈ qs → t.all isLineCode = true := by
        intro qs
        induction qs with
        | nil => intro s s' _ hm; cases hm
        | cons q qs ih =>
          intro s s' h hm
          rw [Piece.scanAll_cons, Option.bind_eq_some_iff] at h
          obtain ⟨m, hq, h⟩ := h
          rcases List.mem_cons.mp hm with rfl | hm
          · simp only [Piece.scan] at hq
            split at hq
            · assumption
            · cases hq
          · exact ih m s' h hm
      have := List.all_eq_true.mp (hall ps _ _ hs hps) c hc
      simp only [isLineCode, Bool.and_eq_true] at this
      exact this.1.1.1
    | name t => exact isCode_of_isAsciiWord (hp _ hps c hc)
    | type t => exact forall_isTypeChar (by decide) ((hp (.type t) hps).chars c hc)
    | quoted t => cases hpb
    | group => cases hpb
    | elements t => cases hpb

theorem BareLine.indented {l : Text} (h : BareLine l) {i : Text} (hi : IsIndent i) :
    BareLine (i ++ l) where
  sound := h.sound.indented hi
  level := hi.level.append h.level
  code c hc := by
    rcases List.mem_append.mp hc with hc | hc
    · have := hi c hc
      simp only [isSpaceTab, Bool.or_eq_true, beq_iff_eq] at this
      rcases this with rfl | rfl <;> decide
    · exact h.code c hc

/-- The public method of that name with the given first line and the lines of its block. -/
def methodOf (name head : Text) (block : List Text) : Method where
  name := name
  head := head ++ "\n\x7b"
  body := some (ofLines ([] :: (block ++ [[]])))
  tail := "\x7d"

/-- The rows of such a method. -/
def methodRows (head : Text) (block : List Text) : List Row :=
  ⟨head, head⟩ :: Row.brace '\x7b' :: (block.map (fun l => ⟨l, l⟩) ++ [Row.brace '\x7d'])

theorem methodOf_text (name head : Text) (block : List Text) :
    (methodOf name head block).text = ofLines (head :: ['\x7b'] :: (block ++ [['\x7d']])) := by
  have h₁ := ofLines_glue [] ['\x7b'] [] (block ++ [['\x7d']])
  have h₂ := ofLines_glue ([] :: block) [] ['\x7d'] []
  have h₃ : ofLines (head :: ['\x7b'] :: (block ++ [['\x7d']])) =
      head ++ '\n' :: ofLines (['\x7b'] :: (block ++ [['\x7d']])) := ofLines_cons (by simp)
  simp only [List.nil_append, List.append_nil, ofLines_singleton, List.cons_append] at h₁ h₂
  rw [h₃, ← h₁, ← h₂]
  simp [methodOf, Method.text]

/-- The text of such a method, as it is read. -/
theorem methodOf_split (head : Text) (block : List Text) (name : Text) :
    (methodOf name head block).text =
      (head ++ ['\n']) ++ '\x7b' :: (ofLines ([] :: (block ++ [[]])) ++ ['\x7d']) := by
  simp [methodOf, Method.text]

/-- **A method made of checked lines is tidy.** -/
theorem tidy_methodOf {name head rest : Text} {block : List Text} (hn : Name name)
    (hhead : BareLine head) (hsemi : ';' ∉ head)
    (hstart : head = "public " ++ ("function " ++ (name ++ '(' :: rest)))
    (hblock : ∀ l ∈ block, BareLine l) :
    Tidy (.method (methodOf name head block)) (methodRows head block) where
  text := by
    rw [Member.text, methodOf_text]
    simp [methodRows, Row.brace, Function.comp_def]
  reads line := by
    have hfeed : Level ['\n'] := .of_plain (by decide)
    have hlines : ∀ l ∈ [] :: (block ++ [[]]), Level l ∧ ∀ c ∈ l, isCode c = true := by
      intro l hl
      simp only [List.mem_cons, List.mem_append, List.not_mem_nil, or_false] at hl
      rcases hl with rfl | hl | rfl
      · exact ⟨.nil, by simp⟩
      · exact ⟨(hblock l hl).level, (hblock l hl).code⟩
      · exact ⟨.nil, by simp⟩
    have hcode : ∀ c ∈ ofLines ([] :: (block ++ [[]])), isCode c = true := by
      refine ofLines_induction (P := fun t => ∀ c ∈ t, isCode c = true) (by simp) (by decide) ?_
        fun l hl => (hlines l hl).2
      intro s t hs ht c hc
      rcases List.mem_append.mp hc with hc | hc
      · exact hs c hc
      · exact ht c hc
    have hrest : head ++ ['\n'] = "public " ++ ("function " ++ (name ++ '(' :: (rest ++ ['\n']))) := by
      rw [hstart]
      simp
    have hread := ofText_method hn hrest ?_ (hhead.level.append hfeed) (by simp [hsemi])
      (.ofLines fun l hl => (hlines l hl).1) line
    · rw [Member.text, methodOf_split, hread]
      simp [methodOf]
    · intro c hc
      simp only [List.mem_append, List.mem_singleton] at hc
      rcases hc with (hc | rfl) | hc
      · exact hhead.code c hc
      · decide
      · exact hcode c hc
  flush := by
    refine ⟨⟨head, head⟩, _, rfl, ?_, hhead.sound.inked.last, hhead.sound.inked.oneLine,
      hhead.sound.inked.content⟩
    intro c hc
    have : c = 'p' := by
      rw [hstart] at hc
      simpa using hc.symm
    rw [this]
    decide
  sound r hr := by
    simp only [methodRows, List.mem_cons, List.mem_append, List.mem_map, List.not_mem_nil,
      or_false] at hr
    rcases hr with rfl | rfl | ⟨l, hl, rfl⟩ | rfl
    · exact hhead.sound
    · exact Row.brace_sound (.inl rfl)
    · exact (hblock l hl).sound
    · exact Row.brace_sound (.inr rfl)
  complete i hi := by
    refine IsBlock.complete ⟨[head], block, ?_, by simp, ?_, fun l hl => (hblock l hl).level⟩ hi
    · simp [methodRows, Row.brace, Function.comp_def]
    · intro k hk
      rw [List.mem_singleton.mp hk]
      exact ⟨hhead.level, hsemi⟩

/-! ## Properties -/

/-- An attribute with its arguments. -/
def attributePieces (k : Text) (args : List Piece) : List Piece :=
  .group :: .type k :: .code "(" :: (args ++ [.code ")]"])

/-- The declaration of a property, up to its semicolon. -/
def declarationPieces (t n rest : Text) : List Piece :=
  [.code "public ", .type t, .code " $", .name n, .code rest]

/-- What can stand in front of the attribute: nothing, or the comment on the elements. -/
def IsFront (front : List Row) : Prop :=
  front = [] ∨ ∃ target, Plain target ∧ front = [Row.ofPieces [.elements target]]

def propertyRows (front : List Row) (k : Text) (args : List Piece) (t n rest : Text) : List Row :=
  front ++ [Row.ofPieces (attributePieces k args),
    Row.ofPieces (declarationPieces t n rest ++ [.code ";"])]

/-- The arguments of an attribute that can be read. -/
structure Arguments (args : List Piece) : Prop where
  scan : ∃ words, Piece.scanAll Piece.lineStart args = some ⟨words, false, []⟩
  plain : ∀ p ∈ args, p.IsPlain
  avoids : ∀ c ∈ ['[', ']', ';', '#'], args.all (·.avoids c) = true

/-- What a property of generated code consists of. -/
structure PropertyParts (front : List Row) (k : Text) (args : List Piece) (t n rest : Text) :
    Prop where
  front : IsFront front
  kind : Name k ∧ IsType k
  arguments : Arguments args
  type : IsType t ∧ t ∉ ("function" : Text) :: (methodModifiers ++ propertyModifiers)
  name : Name n
  rest : rest = [] ∨ rest = " = null"

theorem IsType.typeWord {t : Text} (h : IsType t)
    (hfree : t ∉ ("function" : Text) :: (methodModifiers ++ propertyModifiers)) : TypeWord t where
  solid c hc := by
    have := forall_isTypeChar (p := fun c => !isBlank c) (by decide) (h.chars c hc)
    simpa using this
  content := h.content
  ends c hc := by
    have := forall_isTypeChar (p := fun c => c != '$' && c != '=' && c != ';' && c != '(')
      (by decide) (h.chars c hc)
    simpa [and_assoc] using this
  free := hfree

section

variable {front : List Row} {k : Text} {args : List Piece} {t n rest : Text}

theorem plain_attributePieces (h : PropertyParts front k args t n rest) :
    ∀ p ∈ attributePieces k args, p.IsPlain := by
  intro p hp
  simp only [attributePieces, List.mem_cons, List.mem_append, List.not_mem_nil, or_false] at hp
  rcases hp with rfl | rfl | rfl | hp | rfl
  · trivial
  · exact h.kind.2
  · trivial
  · exact h.arguments.plain p hp
  · trivial

theorem fits_attributePieces (h : PropertyParts front k args t n rest) :
    Piece.fits (attributePieces k args) = true := by
  obtain ⟨words, hscan⟩ := h.arguments.scan
  have hargs := Piece.scanAll_outer hscan ['(', '[']
  have hends : Piece.endsInked (attributePieces k args) = true := by
    have : (attributePieces k args).getLast? = some (.code ")]") := by
      rw [attributePieces, ← List.cons_append, ← List.cons_append, ← List.cons_append,
        List.getLast?_concat]
    rw [Piece.endsInked, this]
    rfl
  have hall : Piece.scanAll Piece.lineStart (attributePieces k args) =
      some ⟨headWords, false, []⟩ := by
    change Piece.scanAll ⟨headWords, false, ['(', '[']⟩ (args ++ [.code ")]"]) = _
    have hargs : Piece.scanAll ⟨headWords, false, ['(', '[']⟩ args =
        some ⟨words, false, ['(', '[']⟩ := hargs
    rw [Piece.scanAll_append, hargs]
    rfl
  simp only [Piece.fits, hends, hall]
  decide

theorem plain_declarationPieces (h : PropertyParts front k args t n rest) :
    ∀ p ∈ declarationPieces t n rest, p.IsPlain := by
  intro p hp
  simp only [declarationPieces, List.mem_cons, List.not_mem_nil, or_false] at hp
  rcases hp with rfl | rfl | rfl | rfl | rfl
  · trivial
  · exact h.type.1
  · trivial
  · exact h.name.plain
  · trivial

theorem level_declaration (h : PropertyParts front k args t n rest) :
    Level (Row.ofPieces (declarationPieces t n rest)).shown := by
  have hscan : ∃ s, Piece.scanAll Piece.lineStart (declarationPieces t n rest) = some s ∧
      s.openers = [] := by
    rcases h.rest with hr | hr
    · rw [hr]
      exact ⟨⟨[], false, []⟩, rfl, rfl⟩
    · rw [hr]
      exact ⟨⟨[], false, []⟩, rfl, rfl⟩
  obtain ⟨s, hs, ho⟩ := hscan
  obtain ⟨-, -, -, h₁, -, h₂, h₃⟩ := Piece.sound_of_scanAll (plain_declarationPieces h) hs
  rw [ho] at h₁
  exact ⟨h₁, h₂, h₃⟩

theorem sound_declaration (h : PropertyParts front k args t n rest) :
    (Row.ofPieces (declarationPieces t n rest ++ [.code ";"])).Sound := by
  refine (Row.ofPieces_sound ?_ ?_).1
  · rcases h.rest with hr | hr
    · rw [hr]
      rfl
    · rw [hr]
      rfl
  · intro p hp
    rcases List.mem_append.mp hp with hp | hp
    · exact plain_declarationPieces h p hp
    · rw [List.mem_singleton.mp hp]
      trivial

theorem IsFront.rows (h : IsFront front) :
    ∀ r ∈ front, r.Sound ∧ Level r.shown ∧ (∀ c ∈ r.shown, isBlank c = true) ∧ Flush r.text := by
  intro r hr
  rcases h with rfl | ⟨target, htarget, rfl⟩
  · cases hr
  · rw [List.mem_singleton.mp hr]
    have hp : ∀ p ∈ [Piece.elements target], p.IsPlain := by
      intro p hp
      rw [List.mem_singleton.mp hp]
      exact htarget
    have hfits : Piece.fits [.elements target] = true := rfl
    obtain ⟨hsound, hlevel⟩ := Row.ofPieces_sound hfits hp
    refine ⟨hsound, hlevel, fun c hc => ?_, fun c hc => ?_, hsound.inked.last,
      hsound.inked.oneLine, hsound.inked.content⟩
    · simp only [Row.ofPieces, List.flatMap_cons, List.flatMap_nil, List.append_nil] at hc
      obtain ⟨d, -, rfl⟩ := List.mem_map.mp hc
      split <;> decide
    · have : c = '/' := by simpa [Row.ofPieces, Piece.text] using hc.symm
      rw [this]
      decide

/-- What the mask shows of a property: blanks, the group, and the declaration. -/
theorem shown_property (k : Text) (args : List Piece) (t n rest : Text) (h : IsFront front) :
    ∃ b : Text, (∀ c ∈ b, isBlank c = true) ∧
      ofLines ((propertyRows front k args t n rest).map (·.shown)) =
        b ++ '#' :: '[' :: ((k ++ '(' :: ((Row.ofPieces args).shown ++ [')'])) ++ ']' :: '\n' ::
          ("public " ++ (t ++ ' ' :: '$' :: (n ++ (rest ++ [';']))))) := by
  have htwo : ofLines [(Row.ofPieces (attributePieces k args)).shown,
      (Row.ofPieces (declarationPieces t n rest ++ [.code ";"])).shown] =
        '#' :: '[' :: ((k ++ '(' :: ((Row.ofPieces args).shown ++ [')'])) ++ ']' :: '\n' ::
          ("public " ++ (t ++ ' ' :: '$' :: (n ++ (rest ++ [';']))))) := by
    rw [ofLines_cons (by simp), ofLines_singleton]
    simp [Row.ofPieces, attributePieces, declarationPieces, Piece.shown]
  rcases h with rfl | ⟨target, htarget, rfl⟩
  · refine ⟨[], by simp, ?_⟩
    rw [List.nil_append, ← htwo]
    rfl
  · obtain ⟨-, -, hblank, -⟩ := IsFront.rows (.inr ⟨target, htarget, rfl⟩)
      (Row.ofPieces [.elements target]) (List.mem_singleton_self _)
    refine ⟨(Row.ofPieces [.elements target]).shown ++ ['\n'], ?_, ?_⟩
    · intro c hc
      rcases List.mem_append.mp hc with hc | hc
      · exact hblank c hc
      · rw [List.mem_singleton.mp hc]
        decide
    · have hcons : ofLines ((propertyRows [Row.ofPieces [.elements target]] k args t n rest).map
          (·.shown)) = (Row.ofPieces [.elements target]).shown ++ '\n' ::
            ofLines [(Row.ofPieces (attributePieces k args)).shown,
              (Row.ofPieces (declarationPieces t n rest ++ [.code ";"])).shown] :=
        ofLines_cons (by simp)
      rw [hcons, htwo]
      simp

theorem sound_propertyRows (h : PropertyParts front k args t n rest) :
    ∀ r ∈ propertyRows front k args t n rest, r.Sound := by
  intro r hr
  simp only [propertyRows, List.mem_append, List.mem_cons, List.not_mem_nil, or_false] at hr
  rcases hr with hr | rfl | rfl
  · exact (h.front.rows r hr).1
  · exact (Row.ofPieces_sound (fits_attributePieces h) (plain_attributePieces h)).1
  · exact sound_declaration h

/-- What is blank in front, the group with its only attribute, and the declaration are read as the
property. -/
theorem reads_property (h : PropertyParts front k args t n rest) (line : Nat) :
    Member.ofText (ofLines ((propertyRows front k args t n rest).map (·.text))) line =
      .ok (.property ⟨n, ofLines ((propertyRows front k args t n rest).map (·.text)), [k]⟩) := by
  obtain ⟨b, hb, hshown⟩ := shown_property k args t n rest h.front
  have hshows := shows_ofLines fun r hr => (sound_propertyRows h r hr).shows
  rw [hshown] at hshows
  have hkchar : ∀ {c : Char}, isAsciiWord c = false → c ∉ k := h.kind.1.plain.notMem
  have havoid : ∀ c ∈ ['[', ']', ';', '#'], c ∉ (Row.ofPieces args).shown := fun c hc =>
    Piece.notMem_shownAll (by revert c; decide) h.arguments.plain (h.arguments.avoids c hc)
  have hbracket : ∀ c ∈ ['[', ']'], c ∉ k ++ '(' :: ((Row.ofPieces args).shown ++ [')']) := by
    intro c hc
    have hplain : ∀ c ∈ ['[', ']'], isAsciiWord c = false ∧ c ≠ '(' ∧ c ≠ ')' := by decide
    obtain ⟨hword, hopen, hclose⟩ := hplain c hc
    simp only [List.mem_append, List.mem_cons, List.not_mem_nil, or_false, not_or]
    exact ⟨hkchar hword, hopen, havoid c (by simp at hc ⊢; tauto), hclose⟩
  have hread := ofText_property hshows hb (hbracket _ (by decide)) (hbracket _ (by decide))
    (h.type.1.typeWord h.type.2) h.name ?_ ?_ line
  · rw [hread, attributeNames_call h.kind.1]
    obtain ⟨words, hscan⟩ := h.arguments.scan
    exact (Piece.sound_of_scanAll h.arguments.plain hscan).2.2.2.1
  · rcases h.rest with hr | hr
    · rw [hr]
      decide
    · rw [hr]
      decide
  · have htype : '#' ∉ t := h.type.1.notMem (by decide)
    rcases h.rest with hr | hr
    · rw [hr]
      simpa using htype
    · rw [hr]
      simpa using htype

theorem flush_propertyRows (h : PropertyParts front k args t n rest) :
    ∃ r rs, propertyRows front k args t n rest = r :: rs ∧ Flush r.text := by
  rcases h.front with rfl | ⟨target, htarget, rfl⟩
  · have hattribute := (Row.ofPieces_sound (fits_attributePieces h) (plain_attributePieces h)).1
    refine ⟨Row.ofPieces (attributePieces k args), _, rfl, fun c hc => ?_, hattribute.inked.last,
      hattribute.inked.oneLine, hattribute.inked.content⟩
    have : c = '#' := by simpa [Row.ofPieces, attributePieces, Piece.text] using hc.symm
    rw [this]
    decide
  · exact ⟨_, _, rfl, (h.front.rows _ (List.mem_singleton_self _)).2.2.2⟩

/-- Only the semicolon at the end completes the rows. -/
theorem isStatement_propertyRows (h : PropertyParts front k args t n rest) :
    IsStatement ((propertyRows front k args t n rest).map (·.shown)) where
  ends := by
    refine ⟨front.map (·.shown) ++ [(Row.ofPieces (attributePieces k args)).shown],
      (Row.ofPieces (declarationPieces t n rest)).shown, ?_, fun l hl => ?_⟩
    · simp [propertyRows, Row.ofPieces, Piece.shown]
    · simp only [List.append_assoc, List.mem_append, List.mem_map, List.mem_singleton] at hl
      rcases hl with ⟨r, hr, rfl⟩ | rfl | rfl
      · obtain ⟨-, hlevel, hblank, -⟩ := h.front.rows r hr
        refine ⟨hlevel, fun hm => ?_⟩
        have := hblank _ hm
        revert this
        decide
      · have hplain := plain_attributePieces h
        refine ⟨(Row.ofPieces_sound (fits_attributePieces h) hplain).2,
          Piece.notMem_shownAll (by decide) hplain ?_⟩
        have := h.arguments.avoids ';' (by decide)
        simp only [attributePieces, List.all_cons, List.all_append, this]
        rfl
      · refine ⟨level_declaration h, Piece.notMem_shownAll (by decide)
          (plain_declarationPieces h) ?_⟩
        rcases h.rest with hr | hr
        · rw [hr]
          rfl
        · rw [hr]
          rfl

/-- **A property behind its attribute is tidy.** -/
theorem tidy_property (h : PropertyParts front k args t n rest) :
    Tidy (.property ⟨n, ofLines ((propertyRows front k args t n rest).map (·.text)), [k]⟩)
      (propertyRows front k args t n rest) where
  text := rfl
  reads line := reads_property h line
  flush := flush_propertyRows h
  sound := sound_propertyRows h
  complete _ hi := (isStatement_propertyRows h).complete hi

end

end EntityScaffold.Source
