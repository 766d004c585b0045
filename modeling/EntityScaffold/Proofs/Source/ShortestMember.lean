import EntityScaffold.Proofs.Source.MemberEnds
import EntityScaffold.Proofs.Source.Nesting

/-!
# The shortest complete member

A member is complete with a semicolon outside of brackets, or with the brace that closes its first
block.  That is said by the grammar of nested texts; the search for the end of a member, which goes over
the text once with a stack, finds the shortest beginning of which it is true.

* `IsMember`, `Shortest` — complete members, and those that no shorter one begins.
* `Mismatched` — texts that end with a bracket that closes none.
* `Searching` — what holds as long as the search goes on; `Searching.next` is one more character of it.
* `searchResult_extent?`, `extent_finds_shortest` — what the search finds, and when it finds nothing.
* `method_cut` — where a method is cut into head, body and tail.
-/

set_option autoImplicit false

namespace EntityScaffold.Source

open Text

/-- A complete member, and the places where its block opens and closes if it ends with one.  Semicolons
outside of brackets are not ruled out: a shorter member may be in front. -/
inductive IsMember : Text → Option (Nat × Nat) → Prop where
  | statement {s : Text} (hs : Nested s) (hfree : Sheltered '\x7b' s) : IsMember (s ++ [';']) none
  | block {s b : Text} (hs : Nested s) (hfirst : Sheltered '\x7b' s) (hb : Nested b) :
      IsMember (s ++ '\x7b' :: (b ++ ['\x7d'])) (some (s.length, s.length + b.length + 1))

/-- No beginning of the text is a complete member. -/
def Unended (t : Text) : Prop := ∀ p, p <+: t → ∀ block, ¬ IsMember p block

/-- A complete member that no shorter one begins. -/
structure Shortest (t : Text) (block : Option (Nat × Nat)) : Prop where
  nested : Nested t
  member : IsMember t block
  first : ∀ p, p <+: t → p ≠ t → ∀ b, ¬ IsMember p b

/-- The text ends with a bracket that closes another one than the innermost of those that are open,
or while none is open. -/
inductive Mismatched : Text → Prop where
  | closer {openers : List Char} {s : Text} {c : Char} (hs : Opens openers s)
      (hc : isCloser c = true) (hother : ∀ o ∈ openers.head?, closerOf? o ≠ some c) :
      Mismatched (s ++ [c])

/-- What a search for the end of a member comes to. -/
inductive SearchResult (t : Text) : Option Extent → Prop where
  | found {m : Text} {block : Option (Nat × Nat)} (hm : m <+: t) (h : Shortest m block) :
      SearchResult t (some ⟨m.length, block⟩)
  | mismatch {p : Text} (hp : p <+: t) (h : Mismatched p) (hbefore : Unended p) : SearchResult t none
  | exhausted {openers : List Char} (ht : Opens openers t) (h : Unended t) : SearchResult t none

section

variable {openers openers' : List Char} {block : Option Nat} {s t p m : Text} {c : Char}

/-! ## Members and brackets that do not match -/

theorem nested_brace_pair {b : Text} (hb : Nested b) : Nested ('\x7b' :: (b ++ ['\x7d'])) :=
  .pair (by decide) hb .nil

theorem IsMember.nested {places : Option (Nat × Nat)} (h : IsMember t places) : Nested t := by
  cases h with
  | statement hs _ => exact hs.append (.single (by decide) (by decide))
  | block hs _ hb => exact hs.append (nested_brace_pair hb)

/-- Where the block of a member stands is told by its text. -/
theorem IsMember.unique {places places' : Option (Nat × Nat)} (h : IsMember t places)
    (h' : IsMember t places') : places = places' := by
  cases h with
  | statement =>
    generalize ht : _ ++ [';'] = t at h'
    cases h' with
    | statement => rfl
    | block =>
      rw [← List.cons_append, ← List.append_assoc] at ht
      cases (List.append_inj' ht rfl).2
  | block hs hfirst _ =>
    generalize ht : _ ++ '\x7b' :: (_ ++ ['\x7d']) = t at h'
    cases h' with
    | statement =>
      rw [← List.cons_append, ← List.append_assoc] at ht
      cases (List.append_inj' ht rfl).2
    | block hs' hfirst' _ =>
      obtain ⟨rfl, hbehind⟩ := first_unique ht hs hs' hfirst hfirst'
      obtain ⟨rfl, -⟩ := List.append_inj' hbehind rfl
      rfl

/-- A text whose brackets match up to its end has no beginning with one that does not. -/
theorem Opens.not_mismatched (h : Opens openers t) (hp : p <+: t) : ¬ Mismatched p := by
  rintro ⟨hs, hc, hother⟩
  obtain ⟨x, rfl⟩ := hp
  rw [opens_iff_bracketRun] at h hs
  rw [bracketRun_append, bracketRun_append, hs, Option.bind_some, bracketRun_cons,
    bracketStep_eq_none_iff.mpr ⟨hc, hother⟩] at h
  cases h

/-! ## One more character -/

/-- Where the first block opens that is not yet closed, if there is one. -/
def FirstBlock (s : Text) (openers : List Char) : Option Nat → Prop
  | none => Sheltered '\x7b' s
  | some i => ∃ a b inner, s = a ++ '\x7b' :: b ∧ Nested a ∧ Sheltered '\x7b' a ∧ a.length = i ∧
      openers = inner ++ ['\x7b'] ∧ bracketRun [] b = some inner

/-- Behind `s` the search goes on: these brackets are open, no member is complete yet, and `block` is
where the first block opens. -/
structure Searching (s : Text) (openers : List Char) (block : Option Nat) : Prop where
  opens : bracketRun [] s = some openers
  unended : Unended s
  block : FirstBlock s openers block

theorem searching_nil : Searching [] [] none where
  opens := rfl
  unended := by
    intro p hp b hm
    obtain rfl := List.prefix_nil.mp hp
    generalize ht : ([] : Text) = t at hm
    cases hm <;> simp at ht
  block := sheltered_nil

/-- A character closes the outermost bracket, or does among the inner ones what it does without it. -/
theorem bracketStep_outermost {inner : List Char} {o : Char}
    (h : bracketStep (inner ++ [o]) c = some openers) :
    (inner = [] ∧ openers = []) ∨ ∃ inner', bracketStep inner c = some inner' ∧
      openers = inner' ++ [o] := by
  obtain ⟨ho, rfl⟩ | ⟨ho, hc, e, he, hpair⟩ | ⟨ho, hc, rfl⟩ := bracketStep_cases h
  · exact .inr ⟨c :: inner, bracketStep_of_opener ho inner, rfl⟩
  · cases inner with
    | nil => exact .inl ⟨rfl, (List.cons.inj he).2.symm⟩
    | cons i inner =>
      obtain ⟨rfl, rfl⟩ := List.cons.inj he
      exact .inr ⟨inner, bracketStep_of_closerOf? hpair inner, rfl⟩
  · exact .inr ⟨inner, bracketStep_of_plain ho hc inner, rfl⟩

namespace Searching

/-- A semicolon outside of brackets completes a member. -/
theorem statement (h : Searching s [] block) : IsMember (s ++ [';']) none := by
  refine .statement (nested_iff_bracketRun.mpr h.opens) ?_
  cases block with
  | none => exact h.block
  | some i =>
    obtain ⟨_, _, inner, -, -, -, -, hinner, -⟩ := h.block
    simp at hinner

/-- The brace that closes the first block completes a member. -/
theorem brace {i : Nat} (h : Searching s ['\x7b'] (some i)) :
    IsMember (s ++ ['\x7d']) (some (i, s.length)) := by
  obtain ⟨a, b, inner, rfl, ha, hfirst, rfl, hinner, hb⟩ := h.block
  obtain rfl : inner = [] := by
    cases inner with
    | nil => rfl
    | cons e inner => simp at hinner
  rw [List.append_assoc, List.cons_append, List.length_append, List.length_cons, ← Nat.add_assoc]
  exact .block ha hfirst (nested_iff_bracketRun.mpr hb)

/-- What the first block is, after one more character. -/
theorem firstBlock_next (h : Searching s openers block) (hstep : bracketStep openers c = some openers')
    (hunclosed : ¬ (c = '\x7d' ∧ openers' = [] ∧ block.isSome = true)) :
    FirstBlock (s ++ [c]) openers' (blockBehind openers block s.length c) := by
  cases block with
  | none =>
    by_cases hopens : c = '\x7b' ∧ openers = []
    · obtain ⟨rfl, rfl⟩ := hopens
      have hnested : Nested s := nested_iff_bracketRun.mpr h.opens
      exact ⟨s, [], [], rfl, hnested, h.block, rfl, (Option.some.inj hstep).symm, rfl⟩
    · have hnone : blockBehind openers none s.length c = none := by
        unfold blockBehind
        rw [if_neg (by simpa using hopens)]
      rw [hnone]
      refine sheltered_concat.mpr ⟨h.block, fun hc hnested => hopens ⟨hc, ?_⟩⟩
      exact Option.some.inj (h.opens.symm.trans (nested_iff_bracketRun.mp hnested))
  | some i =>
    have hsame : blockBehind openers (some i) s.length c = some i := by simp [blockBehind]
    rw [hsame]
    obtain ⟨a, b, inner, rfl, ha, hfirst, hlen, rfl, hb⟩ := h.block
    obtain ⟨rfl, rfl⟩ | ⟨inner', hinner, rfl⟩ := bracketStep_outermost hstep
    · -- the outermost bracket is the block's brace
      obtain ⟨-, hnil⟩ | ⟨-, -, o, ho, hpair⟩ | ⟨-, -, hnil⟩ := bracketStep_cases hstep
      · cases hnil
      · obtain ⟨rfl, -⟩ := List.cons.inj ho
        exact absurd ⟨(brace_iff_of_closerOf? hpair).mpr rfl, rfl, rfl⟩ hunclosed
      · cases hnil
    · refine ⟨a, b ++ [c], inner', by simp, ha, hfirst, hlen, rfl, ?_⟩
      rw [bracketRun_append, hb, Option.bind_some, bracketRun_cons, hinner]
      rfl

/-- **The search goes on** behind every character that completes no member. -/
theorem next (h : Searching s openers block) (hstep : bracketStep openers c = some openers')
    (houtside : ¬ (c = ';' ∧ openers = []))
    (hunclosed : ¬ (c = '\x7d' ∧ openers' = [] ∧ block.isSome = true)) :
    Searching (s ++ [c]) openers' (blockBehind openers block s.length c) where
  opens := by
    rw [bracketRun_append, h.opens, Option.bind_some, bracketRun_cons, hstep]
    rfl
  block := h.firstBlock_next hstep hunclosed
  unended := by
    intro p hp places hm
    obtain rfl | hp := List.prefix_concat_iff.mp hp
    · generalize ht : s ++ [c] = t at hm
      cases hm with
      | statement hs _ =>
        obtain ⟨rfl, hc⟩ := List.append_inj' ht rfl
        have hopens := h.opens.symm.trans (nested_iff_bracketRun.mp hs)
        exact houtside ⟨(List.cons.inj hc).1, Option.some.inj hopens⟩
      | @block a b ha _ hb =>
        rw [← List.cons_append, ← List.append_assoc] at ht
        obtain ⟨rfl, hc⟩ := List.append_inj' ht rfl
        obtain rfl := (List.cons.inj hc).1
        -- the whole text is nested, and its first block was known to be open
        have hwhole : bracketRun [] (a ++ '\x7b' :: b ++ ['\x7d']) = some [] := by
          rw [List.append_assoc, List.cons_append]
          exact nested_iff_bracketRun.mp (ha.append (nested_brace_pair hb))
        rw [bracketRun_append, h.opens, Option.bind_some, bracketRun_cons, hstep] at hwhole
        refine hunclosed ⟨rfl, Option.some.inj hwhole, ?_⟩
        cases block with
        | none => exact absurd ha (h.block a b rfl)
        | some i => rfl
    · exact h.unended p hp places hm

/-! ## The whole search -/

/-- A member that is complete with the next character is the shortest one. -/
theorem shortest {places : Option (Nat × Nat)} (h : Searching s openers block)
    (hm : IsMember (s ++ [c]) places) : Shortest (s ++ [c]) places where
  nested := hm.nested
  member := hm
  first p hp hne := h.unended p ((List.prefix_concat_iff.mp hp).resolve_left hne)

/-- **The search over the rest of a text**, from any place that it gets to. -/
theorem result (h : Searching s openers block) (u : Text) :
    SearchResult (s ++ u) (extentFrom openers block s.length u) := by
  induction u generalizing s openers block with
  | nil =>
    rw [List.append_nil]
    exact .exhausted (opens_iff_bracketRun.mpr h.opens) h.unended
  | cons c u ih =>
    have hsplit : s ++ c :: u = s ++ [c] ++ u := by simp
    have hbegins : s ++ [c] <+: s ++ c :: u := ⟨u, hsplit.symm⟩
    have hlen : s.length + 1 = (s ++ [c]).length := by simp
    cases hstep : bracketStep openers c with
    | none =>
      rw [extentFrom_of_bracketStep hstep]
      obtain ⟨hc, hother⟩ := bracketStep_eq_none_iff.mp hstep
      have hmismatch : Mismatched (s ++ [c]) := .closer (opens_iff_bracketRun.mpr h.opens) hc hother
      refine .mismatch hbegins hmismatch fun p hp places hm => ?_
      obtain rfl | hp := List.prefix_concat_iff.mp hp
      · exact (Opens.nested hm.nested).not_mismatched List.prefix_rfl hmismatch
      · exact h.unended p hp places hm
    | some openers' =>
      by_cases houtside : c = ';' ∧ openers = []
      · obtain ⟨rfl, rfl⟩ := houtside
        have hfound : extentFrom [] block s.length (';' :: u) = some ⟨s.length + 1, none⟩ := rfl
        rw [hfound, hlen]
        exact .found hbegins (h.shortest h.statement)
      by_cases hunclosed : c = '\x7d' ∧ openers' = [] ∧ block.isSome = true
      · obtain ⟨rfl, rfl, hbegun⟩ := hunclosed
        obtain ⟨i, rfl⟩ := Option.isSome_iff_exists.mp hbegun
        obtain ⟨-, hnil⟩ | ⟨-, -, o, rfl, hpair⟩ | ⟨-, hc, -⟩ := bracketStep_cases hstep
        · cases hnil
        · obtain rfl := (brace_iff_of_closerOf? hpair).mp rfl
          have hfound : extentFrom ['\x7b'] (some i) s.length ('\x7d' :: u) =
              some ⟨s.length + 1, some (i, s.length)⟩ := rfl
          rw [hfound, hlen]
          exact .found hbegins (h.shortest h.brace)
        · cases hc
      · rw [extentFrom_next hstep houtside hunclosed, hsplit, hlen]
        exact ih (h.next hstep houtside hunclosed)

end Searching

/-- **What the search for the end of a member comes to**, on every text. -/
theorem searchResult_extent? (t : Text) : SearchResult t (extent? t) :=
  searching_nil.result t

/-- Of two beginnings of a text that are shortest members, neither is longer. -/
theorem Shortest.eq_of_prefix {m' : Text} {places places' : Option (Nat × Nat)}
    (h : Shortest m places) (h' : Shortest m' places') (hm : m <+: t) (hm' : m' <+: t) : m = m' := by
  by_contra hne
  obtain hp | hp := List.prefix_or_prefix_of_prefix hm hm'
  · exact h'.first m hp hne places h.member
  · exact h.first m' hp (Ne.symm hne) places' h'.member

/-- Where brackets do not match before a member is complete, there is none. -/
theorem Shortest.not_mismatched {places : Option (Nat × Nat)} (h : Shortest m places) (hm : m <+: t)
    (hp : p <+: t) (hbefore : Unended p) : ¬ Mismatched p := by
  obtain hmp | hpm := List.prefix_or_prefix_of_prefix hm hp
  · exact absurd h.member (hbefore m hmp places)
  · exact (Opens.nested h.nested).not_mismatched hpm

/-- **The search finds the shortest complete member, or there is none.**  What it finds is the beginning
of the text from `start` on that is a complete member while no shorter one is: brackets nest in it, and
it ends with a semicolon outside of brackets and with no block in front, or with the brace that closes
its first block.  It finds nothing exactly if a bracket fails to match before any member is complete, or
the text runs out before that. -/
theorem extent_finds_shortest (text : Text) (start : Nat) :
    (∀ e, extent? (text.drop start) = some e ↔
      ∃ m, m <+: text.drop start ∧ m.length = e.size ∧ Shortest m e.block) ∧
    (extent? (text.drop start) = none ↔
      (∃ p, p <+: text.drop start ∧ Mismatched p ∧ Unended p) ∨
        (∀ p, p <+: text.drop start → ¬ Mismatched p) ∧ Unended (text.drop start)) := by
  have hresult := searchResult_extent? (text.drop start)
  generalize hr : extent? (text.drop start) = r at hresult
  cases hresult with
  | @found m places hm h =>
    refine ⟨fun e => ⟨?_, ?_⟩, iff_of_false (by simp) ?_⟩
    · rintro ⟨⟩
      exact ⟨m, hm, rfl, h⟩
    · rintro ⟨m', hm', hlen, h'⟩
      obtain rfl := h.eq_of_prefix h' hm hm'
      rw [hlen, h.member.unique h'.member]
    · rintro (⟨p, hp, hmismatch, hbefore⟩ | ⟨-, hunended⟩)
      · exact h.not_mismatched hm hp hbefore hmismatch
      · exact hunended m hm places h.member
  | @mismatch p hp h hbefore =>
    refine ⟨fun e => iff_of_false (by simp) ?_, iff_of_true rfl (.inl ⟨p, hp, h, hbefore⟩)⟩
    rintro ⟨m, hm, -, hshortest⟩
    exact hshortest.not_mismatched hm hp hbefore h
  | exhausted ht h =>
    refine ⟨fun e => iff_of_false (by simp) ?_,
      iff_of_true rfl (.inr ⟨fun p hp => ht.not_mismatched hp, h⟩)⟩
    rintro ⟨m, hm, -, hshortest⟩
    exact h m hm e.block hshortest.member

/-- A block full of brackets and semicolons, behind a head with some of them within brackets. -/
example : extent? "f(\x7b;\x7d) \x7b a[;]; \x7b\x7d \x7d;" = some ⟨19, some (7, 18)⟩ := by decide

/-- Where the block that is found opens and closes. -/
theorem exists_block {e : Extent} {opening closing : Nat} (h : extent? t = some e)
    (he : e.block = some (opening, closing)) : ∃ s b u, t = s ++ '\x7b' :: (b ++ '\x7d' :: u) ∧
      Nested s ∧ Sheltered '\x7b' s ∧ Nested b ∧ s.length = opening ∧
      s.length + b.length + 1 = closing := by
  have hresult := searchResult_extent? t
  rw [h] at hresult
  obtain ⟨⟨u, rfl⟩, hshortest⟩ := hresult
  dsimp only at he
  subst he
  generalize hplaces : some (opening, closing) = places at hshortest
  cases hshortest.member with
  | statement => cases hplaces
  | @block s b hs hfirst hb =>
    cases hplaces
    exact ⟨s, b, u, by simp, hs, hfirst, hb, rfl, rfl⟩

/-- **Where a method is cut**: its head ends with the brace that opens its first block, its tail begins
with the brace that closes it, and what is shown of its body is nested. -/
theorem method_cut {raw body : Text} {line : Nat} {method : Method}
    (h : Member.ofText raw line = .ok (.method method)) (hbody : method.body = some body) :
    ∃ s b u, mask raw = .ok (s ++ '\x7b' :: (b ++ '\x7d' :: u)) ∧ Nested s ∧ Sheltered '\x7b' s ∧
      Nested b ∧ method.head.length = s.length + 1 ∧ body.length = b.length := by
  rw [Member.ofText] at h
  split at h
  · cases h
  · rename_i m hmask
    simp only at h
    split at h
    · split at h
      · cases h
      · cases h
        cases hbody
      · rename_i size opening closing hext
        cases h
        cases hbody
        obtain ⟨s, b, u, rfl, hs, hfirst, hb, rfl, rfl⟩ := exists_block hext rfl
        have hlen := length_mask hmask
        simp only [List.length_append, List.length_cons] at hlen
        refine ⟨s, b, u, hmask, hs, hfirst, hb, ?_, ?_⟩
        · rw [List.length_take]
          omega
        · rw [List.length_drop, List.length_take]
          omega
    · split at h
      · cases h
      · split at h <;> cases h

end

end EntityScaffold.Source
