import EntityScaffold.Proofs.Source.BlankLines

/-!
# The file layout is canonical

What `normalizeWhitespace` writes is in one layout, whatever it has been given, and a file in that
layout that begins with the opening tag stays as it is.

* `Clean` — what the passes achieve in every text; `InPlace` — and what they achieve in a file.
* `inPlace_passed` — pass by pass: what one achieves, the later ones keep.
* `InLayout` — the layout of a file.
* `formatted_of_inPlace` — a file in its layout has no rule left that changes it.
* `normalizeWhitespace_canonical` — both together.
-/

set_option autoImplicit false

namespace EntityScaffold.Source

open Text

variable {grows : Bool} {s t : Text}

/-- Declarations of strict types are in their shortest form, with a blank line behind them; lines
are trimmed; and no two blank lines follow each other. -/
structure Clean (t : Text) : Prop where
  short : Throughout (fun _ s => ShortAt s) none t
  apart : Throughout (fun _ s => ApartAt s) none t
  trimmed : LinesTrimmed t
  single : ¬ feeds 3 <:+: t

/-- The opening tag and the imports have blank lines behind them as well. -/
structure InPlace (t : Text) : Prop extends Clean t where
  tag : TagApart t
  imports : Idle separateImport none t

/-! ## The six passes -/

/-- A text and what each of the six passes makes of it. -/
structure Passed (t t₁ t₂ t₃ t₄ t₅ t₆ : Text) : Prop where
  tightened : Replaced tightenStrictTypes none t t₁
  separated : Replaced separateStrictTypes none t₁ t₂
  tagged : t₃ = separateOpenTag t₂
  spaced : Replaced separateImport none t₃ t₄
  trimmed : t₅ = trimLines t₄
  collapsed : Replaced collapseLineFeeds none t₅ t₆

theorem exists_passed (t : Text) : ∃ t₁ t₂ t₃ t₄ t₅ t₆, Passed t t₁ t₂ t₃ t₄ t₅ t₆ ∧
    formatted t = trimWhile (· == '\n') t₆ ++ "\n" :=
  ⟨_, _, _, _, _, _,
    { tightened := replaced_replaceAll tightenStrictTypes_consumes t
      separated := replaced_replaceAll separateStrictTypes_consumes _
      tagged := rfl
      spaced := replaced_replaceAll separateImport_consumes _
      trimmed := rfl
      collapsed := replaced_replaceAll collapseLineFeeds_consumes _ }, rfl⟩

namespace Passed

variable {t₁ t₂ t₃ t₄ t₅ t₆ : Text} (h : Passed t t₁ t₂ t₃ t₄ t₅ t₆)

include h

/-- All passes but the first respace the text. -/
theorem respaced : Respaced true t₁ t₂ ∧ Respaced true t₂ t₃ ∧ Respaced true t₃ t₄ ∧
    Respaced false t₄ t₅ ∧ Respaced false t₅ t₆ := by
  refine ⟨h.separated.respaced fillsGaps_separateStrictTypes, ?_,
    h.spaced.respaced fillsGaps_separateImport, ?_, h.collapsed.respaced fillsGaps_collapseLineFeeds⟩
  · rw [h.tagged]
    exact respaced_separateOpenTag t₂
  · rw [h.trimmed]
    exact respaced_trimLines t₄

/-- **What a pass achieves, the later ones keep.** -/
theorem inPlace : InPlace t₆ := by
  obtain ⟨r₂, r₃, r₄, r₅, r₆⟩ := h.respaced
  have hshort := h.tightened.short.short_respaced r₂
  have htag : TagApart t₃ := h.tagged ▸ tagApart_separateOpenTag t₂
  have hlines : LinesTrimmed t₅ := h.trimmed ▸ linesTrimmed_trimLines t₄
  exact
    { short := (((hshort.short_respaced r₃).short_respaced r₄).short_respaced r₅).short_respaced r₆
      apart := (((h.separated.apart.apart_respaced r₃).apart_respaced r₄).apart_respaced
        r₅).apart_respaced r₆
      tag := ((htag.respaced r₄).respaced r₅).respaced r₆
      imports := (h.spaced.idle_imports.imports_respaced r₅).imports_respaced r₆
      trimmed := trimmed_iff.mp (h.collapsed.trimmed (trimmed_iff.mpr hlines))
      single := idle_collapse_iff.mp h.collapsed.idle_collapse }

/-- An opening tag at the beginning stays. -/
theorem openTag (ht : openTag <+: t) : Source.openTag <+: t₆ := by
  obtain ⟨r₂, r₃, r₄, r₅, r₆⟩ := h.respaced
  obtain ⟨u, rfl⟩ := ht
  have hfree : ∀ c ∈ Source.openTag, c ≠ 'd' := by decide
  have hink : ∀ c ∈ Source.openTag, isLayout c = false := by decide
  obtain ⟨u₁, rfl, -⟩ := h.tightened.of_append fun p c v hc => tightenStrictTypes_of_ne (hfree c hc) p v
  obtain ⟨u₂, rfl, -⟩ := r₂.of_append hink
  obtain ⟨u₃, rfl, -⟩ := r₃.of_append hink
  obtain ⟨u₄, rfl, -⟩ := r₄.of_append hink
  obtain ⟨u₅, rfl, -⟩ := r₅.of_append hink
  obtain ⟨u₆, rfl, -⟩ := r₆.of_append hink
  exact ⟨u₆, rfl⟩

/-- Something else than spaces, tabs and line feeds is still there. -/
theorem ink (ht : ∃ c ∈ t, isLayout c = false) : ∃ c ∈ t₆, isLayout c = false := by
  obtain ⟨r₂, r₃, r₄, r₅, r₆⟩ := h.respaced
  have hfirst : ∃ c ∈ t₁, isLayout c = false := by
    obtain ⟨c, hm, hc⟩ := ht
    exact h.tightened.ink hm hc
  exact r₆.exists_of_exists (r₅.exists_of_exists (r₄.exists_of_exists (r₃.exists_of_exists
    (r₂.exists_of_exists hfirst))))

end Passed

/-! ## Both ends -/

/-- Line feeds at both ends are taken off. -/
theorem exists_between_feeds (ht : ∃ c ∈ t, isLayout c = false) : ∃ k body n,
    t = feeds k ++ (body ++ feeds n) ∧ trimWhile (· == '\n') t = body ∧ body ≠ [] ∧
      body.head? ≠ some '\n' ∧ body.getLast? ≠ some '\n' := by
  obtain ⟨k, hk⟩ := takeWhile_lineFeed t
  obtain ⟨u, hsplit, hu⟩ := exists_dropEndWhile (· == '\n') (t.dropWhile (· == '\n'))
  have hend : u = feeds u.length := List.eq_replicate_of_mem fun c hc => by simpa using hu c hc
  have hlast := getLast?_dropEndWhile (· == '\n') (t.dropWhile (· == '\n'))
  have htrim : trimWhile (· == '\n') t = dropEndWhile (· == '\n') (t.dropWhile (· == '\n')) := rfl
  generalize dropEndWhile (· == '\n') (t.dropWhile (· == '\n')) = body at hsplit hlast htrim
  have hwhole : t = feeds k ++ (body ++ feeds u.length) := by
    rw [← hend, ← hsplit, ← hk, List.takeWhile_append_dropWhile]
  have hne : body ≠ [] := by
    rintro rfl
    obtain ⟨c, hm, hc⟩ := ht
    rw [hwhole, List.nil_append] at hm
    rcases List.mem_append.mp hm with hm | hm <;>
      · rw [eq_of_mem_feeds hm] at hc
        exact Bool.noConfusion hc
  refine ⟨k, body, u.length, hwhole, htrim, hne, fun hhead => ?_, fun hfeed => ?_⟩
  · have hfirst := List.head?_dropWhile_not (· == '\n') t
    rw [hsplit, List.head?_append, hhead] at hfirst
    simp at hfirst
  · have := hlast '\n' hfeed
    simp at this

/-- Line feeds at the end may become others. -/
theorem respaced_feeds (s : Text) (n m : Nat) : Respaced false (s ++ feeds n) (s ++ feeds m) :=
  (Respaced.ends m fun c hc => by rw [eq_of_mem_feeds hc]; rfl).append_left s

/-- One line feed at the end makes no run of three. -/
theorem single_lineFeed (hlast : s.getLast? ≠ some '\n') (h : ¬ feeds 3 <:+: s) :
    ¬ feeds 3 <:+: s ++ feeds 1 := by
  rintro ⟨a, b, hab⟩
  rcases List.eq_nil_or_concat b with rfl | ⟨b, c, rfl⟩
  · have hs : s = a ++ feeds 2 := by
      have hends : s ++ feeds 1 = a ++ feeds 2 ++ feeds 1 := by
        rw [← hab, List.append_nil, List.append_assoc]
        rfl
      exact List.append_cancel_right hends
    rw [hs, List.getLast?_append, getLast?_feeds] at hlast
    exact hlast rfl
  · rw [List.concat_eq_append, ← List.append_assoc] at hab
    exact h ⟨a, b, (List.append_inj' hab rfl).1⟩

/-- **Line feeds at both ends** are in the way of nothing. -/
theorem Clean.ends {k n : Nat} (h : Clean (feeds k ++ (s ++ feeds n)))
    (hlast : s.getLast? ≠ some '\n') : Clean (s ++ feeds 1) where
  short := h.short.drop.congr.short_respaced (respaced_feeds s n 1)
  apart := h.apart.drop.congr.apart_respaced (respaced_feeds s n 1)
  trimmed := by
    have hwhole : Throughout (fun _ s => TrimmedAt s) none _ := trimmed_iff.mpr h.trimmed
    exact trimmed_iff.mp hwhole.drop.trimmed_feeds
  single := by
    refine single_lineFeed hlast fun hwithin => h.single (hwithin.trans ?_)
    exact ⟨feeds k, feeds n, List.append_assoc _ _ _⟩

theorem InPlace.ends {n : Nat} (h : InPlace (s ++ feeds n)) (hlast : s.getLast? ≠ some '\n') :
    InPlace (s ++ feeds 1) where
  toClean := h.toClean.ends (k := 0) hlast
  tag := h.tag.respaced (respaced_feeds s n 1)
  imports := h.imports.imports_respaced (respaced_feeds s n 1)

/-- An opening tag and a blank line can be put in front. -/
theorem Clean.behindTag (h : Clean t) (hhead : t.head? ≠ some '\n') :
    Clean (openTag ++ (feeds 2 ++ t)) := by
  have hfront : ∀ c ∈ openTag ++ feeds 2, c ≠ 'd' ∧ isSpaceTab c = false := by decide
  have htag : ∀ c ∈ openTag, c ≠ '\n' := by decide
  have htrimmed : Throughout (fun _ s => TrimmedAt s) none ((openTag ++ feeds 2) ++ t) := by
    refine Throughout.append (fun p c u hc => ?_) (trimmed_iff.mpr h.trimmed)
    intro d v heq hspace
    rw [← (List.cons.inj heq).1, (hfront c hc).2] at hspace
    cases hspace
  have hsingle : Idle collapseLineFeeds none (openTag ++ (feeds 2 ++ t)) :=
    Throughout.append (fun p c u hc => collapseLineFeeds_of_ne (htag c hc) p u)
      (idle_collapse_feeds hhead h.single _)
  have hshort : Throughout (fun _ s => ShortAt s) none ((openTag ++ feeds 2) ++ t) :=
    Throughout.append (fun _ c u hc => shortAt_of_ne (hfront c hc).1 u) h.short.congr
  have hapart : Throughout (fun _ s => ApartAt s) none ((openTag ++ feeds 2) ++ t) :=
    Throughout.append (fun _ c u hc => apartAt_of_ne (hfront c hc).1 u) h.apart.congr
  rw [List.append_assoc] at hshort hapart htrimmed
  exact ⟨hshort, hapart, trimmed_iff.mp htrimmed, idle_collapse_iff.mp hsingle⟩

/-! ## The layout of a file -/

/-- The layout of a file: it begins with the opening tag and ends with one line feed, no line ends in
spaces or tabs, no two blank lines follow each other, and each declaration of strict types is in its
shortest form, with one blank line behind it where only line feeds follow. -/
structure InLayout (t : Text) : Prop where
  tag : openTag <+: t
  feed : ∃ body, t = body ++ "\n" ∧ body.getLast? ≠ some '\n'
  trimmed : ∀ l ∈ lines t, ∀ c ∈ l.getLast?, isSpaceTab c = false
  single : ¬ ("\n\n\n" : Text) <:+: t
  strict : ∀ a m b, t = a ++ (m ++ b) → IsStrictTypes m → m = strictTypes ∧
    ∀ n c u, b = List.replicate (n + 1) '\n' ++ c :: u → isBlank c = false → n + 1 = 2

/-- Line feeds in a clean text, behind spaces and tabs and in front of something else: there are no
spaces and tabs, and one or two line feeds. -/
theorem Clean.feeds_le {a x u : Text} {n : Nat} (h : Clean (a ++ (x ++ (feeds (n + 1) ++ u))))
    (hx : ∀ c ∈ x, isSpaceTab c = true) : x = [] ∧ n ≤ 1 := by
  constructor
  · rcases List.eq_nil_or_concat x with hnil | ⟨y, c, rfl⟩
    · exact hnil
    · have hc : isSpaceTab c = true := hx c (by simp)
      have hplace : Throughout (fun _ s => TrimmedAt s) none _ := trimmed_iff.mpr h.trimmed
      rw [List.concat_eq_append, List.append_assoc, ← List.append_assoc] at hplace
      exact Bool.noConfusion (hplace.place c _ rfl hc)
  · by_contra hn
    obtain ⟨k, rfl⟩ : ∃ k, n = k + 2 := ⟨n - 2, by omega⟩
    refine h.single ⟨a ++ x, feeds k ++ u, ?_⟩
    have hfeeds : feeds (k + 2 + 1) = feeds 3 ++ feeds k := by
      rw [feeds, feeds, feeds, List.replicate_append_replicate]
      congr 1
      omega
    simp only [hfeeds, List.append_assoc]

theorem Clean.inLayout (h : Clean t) (htag : openTag <+: t)
    (hfeed : ∃ body, t = body ++ "\n" ∧ body.getLast? ≠ some '\n') : InLayout t where
  tag := htag
  feed := hfeed
  trimmed := h.trimmed
  single := h.single
  strict a m b ht hm := by
    obtain ⟨x, rfl, -⟩ := hm.eq_cons
    have hshort : ShortAt (('d' :: x) ++ b) := Throughout.place (ht ▸ h.short)
    have happart : ApartAt (('d' :: x) ++ b) := Throughout.place (ht ▸ h.apart)
    have hm' := hshort _ b hm rfl
    refine ⟨hm', fun n c u hb hc => ?_⟩
    have hle : n ≤ 1 := by
      rw [ht, hb, ← List.append_assoc] at h
      exact (Clean.feeds_le (x := []) h (by simp)).2
    have hne : n ≠ 0 := by
      rintro rfl
      rw [hm'] at happart
      exact happart b (c :: u) rfl ⟨[], hb, by simp, by simpa using hc⟩
    omega

/-! ## Nothing is left to do -/

theorem Clean.settles_tighten (h : Clean t) : Settles tightenStrictTypes none t := by
  refine h.short.mono fun p s hs new rest hrule => ?_
  simp only [tightenStrictTypes, Option.map_eq_some_iff, Prod.mk.injEq] at hrule
  obtain ⟨_, hread, rfl, rfl⟩ := hrule
  obtain ⟨m, hm, rfl⟩ := looseStrictTypes?_eq_some_iff.mp hread
  rw [hs m _ hm rfl]

theorem Clean.settles_separate (h : Clean t) : Settles separateStrictTypes none t := by
  refine Throughout.of_forall fun p a c u hsplit new rest hrule => ?_
  simp only [separateStrictTypes, Option.bind_eq_bind, Option.bind_eq_some_iff,
    Option.some.injEq, Prod.mk.injEq] at hrule
  obtain ⟨w, hw, _, hbehind, rfl, rfl⟩ := hrule
  have hhere := eq_append_of_after? hw
  obtain ⟨x, n, rfl, hx, hrest⟩ := behindLineFeeds?_eq_some_iff.mp hbehind
  have hclean := h
  rw [hsplit, hhere, ← List.append_assoc] at hclean
  obtain ⟨rfl, hn⟩ := hclean.feeds_le hx
  have happart : ApartAt (c :: u) := Throughout.place (hsplit ▸ h.apart)
  have hne : n ≠ 0 := by
    rintro rfl
    exact happart _ _ hhere ⟨[], rfl, by simp, hrest⟩
  obtain rfl : n = 1 := by omega
  rw [hhere, List.append_assoc]
  rfl

theorem InPlace.separateOpenTag_eq (h : InPlace t) : separateOpenTag t = t := by
  rw [separateOpenTag]
  split
  · rename_i rest hread
    split
    · rfl
    · rename_i hdeclare
      obtain ⟨u, hu, hbehind⟩ := Option.bind_eq_some_iff.mp hread
      have hsplit := eq_append_of_after? hu
      obtain ⟨x, n, rfl, hx, hrest⟩ := behindLineFeeds?_eq_some_iff.mp hbehind
      have hclean := h.toClean
      rw [hsplit] at hclean
      obtain ⟨rfl, hn⟩ := hclean.feeds_le hx
      have hne : n ≠ 0 := by
        rintro rfl
        exact hdeclare (h.tag _ _ hsplit ⟨[], rfl, by simp, hrest⟩)
      obtain rfl : n = 1 := by omega
      rw [hsplit, List.append_assoc]
      rfl
  · rfl

/-- **No pass changes a file in its layout.** -/
theorem formatted_of_inPlace (h : InPlace t) (htag : openTag <+: t)
    (hfeed : ∃ body, t = body ++ "\n" ∧ body.getLast? ≠ some '\n') : formatted t = t := by
  have hcollapse : Settles collapseLineFeeds none t := (idle_collapse_iff.mpr h.single).settles
  have hends : trimWhile (· == '\n') t ++ "\n" = t := by
    obtain ⟨body, hbody, hlast⟩ := hfeed
    obtain ⟨u, rfl⟩ := htag
    have hhead : (openTag ++ u).dropWhile (· == '\n') = openTag ++ u := rfl
    rw [trimWhile, hhead, hbody, dropEndWhile_append_of_all (by decide), dropEndWhile_of_last]
    intro c hc
    rw [beq_eq_false_iff_ne]
    rintro rfl
    exact hlast hc
  simp only [formatted]
  rw [replaceAll_of_settles tightenStrictTypes_consumes h.settles_tighten,
    replaceAll_of_settles separateStrictTypes_consumes h.settles_separate, h.separateOpenTag_eq,
    replaceAll_of_settles separateImport_consumes h.imports.settles,
    trimLines_of_linesTrimmed h.trimmed,
    replaceAll_of_settles collapseLineFeeds_consumes hcollapse, hends]

theorem withOpenTag_eq_self (h : openTag <+: t) : withOpenTag t = t := by
  obtain ⟨u, rfl⟩ := h
  rw [withOpenTag, if_pos (startsWith_append openTag u)]

/-! ## Both halves together -/

variable {body : Text}

/-- A clean text that has no line feed too many at its ends is in the layout of a file once it has
the opening tag. -/
theorem Clean.inLayout_withOpenTag (h : Clean (body ++ feeds 1)) (hne : body ≠ [])
    (hhead : body.head? ≠ some '\n') (hlast : body.getLast? ≠ some '\n') :
    InLayout (withOpenTag (body ++ feeds 1)) := by
  by_cases htag : openTag <+: body ++ feeds 1
  · rw [withOpenTag_eq_self htag]
    exact h.inLayout htag ⟨body, rfl, hlast⟩
  · have hnone : startsWith openTag (body ++ feeds 1) = false := by
      rw [← Bool.not_eq_true]
      intro hstart
      obtain ⟨u, hu⟩ := Option.isSome_iff_exists.mp hstart
      exact htag ⟨u, (eq_append_of_after? hu).symm⟩
    have hbehind : withOpenTag (body ++ feeds 1) = openTag ++ (feeds 2 ++ (body ++ feeds 1)) := by
      rw [withOpenTag, hnone, List.append_assoc]
      rfl
    have hfirst : (body ++ feeds 1).head? ≠ some '\n' := by
      obtain ⟨c, body, rfl⟩ := List.exists_cons_of_ne_nil hne
      exact hhead
    rw [hbehind]
    refine (h.behindTag hfirst).inLayout ⟨_, rfl⟩ ⟨openTag ++ (feeds 2 ++ body), ?_, ?_⟩
    · simp only [List.append_assoc]
      rfl
    · rw [← List.append_assoc, getLast?_append_of_ne_nil _ hne]
      exact hlast

/-- An opening tag has no line feeds in front of it that could be taken off. -/
theorem openTag_between_feeds {k n : Nat} (h : openTag <+: feeds k ++ (body ++ feeds n)) :
    k = 0 ∧ openTag <+: body ++ feeds 1 := by
  obtain ⟨u, hu⟩ := h
  obtain rfl : k = 0 := by
    cases k with
    | zero => rfl
    | succ k => exact absurd (List.cons.inj hu).1 (by decide)
  have hspaced := respaced_feeds body n 1
  rw [show body ++ feeds n = openTag ++ u from hu.symm] at hspaced
  obtain ⟨v, hv, -⟩ := hspaced.of_append (by decide)
  exact ⟨rfl, v, hv.symm⟩

/-- **The layout pass is canonical and idempotent.**  What it writes is in the layout of a file, unless
the text has nothing but spaces, tabs and line feeds; and a text that begins with the opening tag is
not changed any more by a second pass. -/
theorem normalizeWhitespace_canonical {code : Text}
    (hcode : ∃ c ∈ code, c ≠ ' ' ∧ c ≠ '\t' ∧ c ≠ '\n') : InLayout (normalizeWhitespace code) ∧
      (openTag <+: code → normalizeWhitespace (normalizeWhitespace code) = normalizeWhitespace code) := by
  have hink : ∃ c ∈ code, isLayout c = false := by
    obtain ⟨c, hm, hspace, htab, hfeed⟩ := hcode
    refine ⟨c, hm, ?_⟩
    rw [← Bool.not_eq_true, isLayout_iff]
    rintro (h | h | h)
    exacts [hfeed h, hspace h, htab h]
  obtain ⟨t₁, t₂, t₃, t₄, t₅, t₆, hpassed, hformatted⟩ := exists_passed code
  obtain ⟨k, body, n, hwhole, htrim, hne, hhead, hlast⟩ := exists_between_feeds (hpassed.ink hink)
  have hplace : InPlace (feeds k ++ (body ++ feeds n)) := hwhole ▸ hpassed.inPlace
  have hfile : formatted code = body ++ feeds 1 := by rw [hformatted, htrim]; rfl
  rw [normalizeWhitespace, hfile]
  refine ⟨(hplace.toClean.ends hlast).inLayout_withOpenTag hne hhead hlast, fun hcodeTag => ?_⟩
  obtain ⟨rfl, htag⟩ := openTag_between_feeds (hwhole ▸ hpassed.openTag hcodeTag)
  have hfixed : formatted (body ++ feeds 1) = body ++ feeds 1 :=
    formatted_of_inPlace (hplace.ends hlast) htag ⟨body, rfl, hlast⟩
  rw [withOpenTag_eq_self htag, normalizeWhitespace, hfixed, withOpenTag_eq_self htag]

/-- A file whose declaration, import and class stand too close together, with a tab behind a line. -/
theorem normalizeWhitespace_canonical_close :
    (∃ c ∈ ("<?php\ndeclare( strict_types = 1 ) ;\nuse A;\nclass B\t\n\n\n\n" : Text),
        c ≠ ' ' ∧ c ≠ '\t' ∧ c ≠ '\n') ∧
      InLayout "<?php\ndeclare(strict_types=1);\n\nuse A;\n\nclass B\n" ∧
      normalizeWhitespace "<?php\ndeclare(strict_types=1);\n\nuse A;\n\nclass B\n" =
        "<?php\ndeclare(strict_types=1);\n\nuse A;\n\nclass B\n" := by
  have hink : ∃ c ∈ ("<?php\ndeclare( strict_types = 1 ) ;\nuse A;\nclass B\t\n\n\n\n" : Text),
      c ≠ ' ' ∧ c ≠ '\t' ∧ c ≠ '\n' := ⟨'<', by decide⟩
  have hwritten : normalizeWhitespace
      ("<?php\ndeclare( strict_types = 1 ) ;\nuse A;\nclass B\t\n\n\n\n" : Text) =
        "<?php\ndeclare(strict_types=1);\n\nuse A;\n\nclass B\n" := by decide +kernel
  obtain ⟨hlayout, hagain⟩ := normalizeWhitespace_canonical hink
  have htag : openTag <+: ("<?php\ndeclare( strict_types = 1 ) ;\nuse A;\nclass B\t\n\n\n\n" : Text) :=
    ⟨_, rfl⟩
  rw [hwritten] at hlayout hagain
  exact ⟨hink, hlayout, hagain htag⟩

end EntityScaffold.Source
