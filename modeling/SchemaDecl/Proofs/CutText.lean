import SchemaDecl.Proofs.Scanning

/-!
# Texts that end early

What the tokens of a text are when its end is cut off.  The cut stands between two tokens, and the rest of them is
missing, or it stands inside a token, of which a broken one is left; only of a number may the cut leave a number
(`Cut`).  Cutting a text cuts its tokens (`Scan.cut_run`), unless it takes nothing but white space away.
-/

namespace SchemaDecl.Json

/-- What a cut leaves of a token.  Only a cut inside a number can leave a number; of a token that was broken before,
nothing is said but that no mark is left. -/
inductive Token.LeftOver (inside : Prop) : Token → Token → Prop
  | word {t : Token} (h : t.isWord = true) : LeftOver inside t (.brokenWord true)
  | string {ps ps' : List Piece} (h : ps' <+: ps) : LeftOver inside (.string ps) (.brokenString ps' true)
  | number (h : inside) (x y : NumberLiteral) : LeftOver inside (.number x) (.number y)
  | brokenNumber (h : inside) (x : NumberLiteral) : LeftOver inside (.number x) (.brokenNumber true)
  | broken {t u : Token} (ht : t.isBroken = true) (hu : u.isMark = false) : LeftOver inside t u

/-- The tokens of a text, and what a cut leaves of them: something is missing at the end. -/
inductive Cut (inside : Prop) : List Token → List Token → Prop
  | before (t : Token) (ts : List Token) : Cut inside (t :: ts) []
  | within {t u : Token} (h : t.LeftOver inside u) (ts : List Token) : Cut inside (t :: ts) [u]
  | after (t : Token) {ts us : List Token} (h : Cut inside ts us) : Cut inside (t :: ts) (t :: us)

private theorem Cut.append {inside : Prop} {ts us : List Token} (h : Cut inside ts us) (front : List Token) :
    Cut inside (front ++ ts) (front ++ us) := by
  induction front with
  | nil => exact h
  | cons t front ih => exact .after t ih

namespace Scan

/-! ### The token that is being read -/

/-- What is being read can turn out to be a token. -/
inductive Yields : Scan → Token → Prop
  | word (ds : List Char) (t : Token) : Yields (.word ds t) t
  | string {done ps : List Piece} (h : done.reverse <+: ps) : Yields (.string done) (.string ps)
  | escape {done ps : List Piece} (h : done.reverse <+: ps) : Yields (.escape done) (.string ps)
  | hex {done ps : List Piece} (h : done.reverse <+: ps) (seen : List Char) : Yields (.hex done seen) (.string ps)
  | number (x y : NumberLiteral) (phase : NumberPhase) : Yields (.number x phase) (.number y)

private theorem reverse_prefix_of_cons {p : Piece} {done ps : List Piece} (h : (p :: done).reverse <+: ps) :
    done.reverse <+: ps := by
  rw [List.reverse_cons] at h
  exact (List.prefix_append _ _).trans h

/-- Inside a token, a step goes on with it or ends it. -/
theorem Step.inside {s : Scan} {c : Char} {next : Option Scan} {ts : List Token} (h : Step c s next ts)
    (hs : s ≠ .ground) :
    (ts = [] ∧ ∃ s', next = some s' ∧ s' ≠ .ground ∧ ∀ t, s'.Yields t → s.Yields t) ∨
      ∃ t ts', ts = t :: ts' ∧ (t.isBroken = true ∨ s.Yields t) := by
  cases h with
  | ground _ => exact absurd rfl hs
  | wordOn _ =>
    refine .inl ⟨rfl, _, rfl, nofun, fun t ht => ?_⟩
    cases ht
    exact .word _ _
  | wordEnd t => exact .inr ⟨_, _, rfl, .inr (.word _ _)⟩
  | wordOver t _ => exact .inr ⟨_, _, rfl, .inr (.word _ _)⟩
  | stringEnd done _ => exact .inr ⟨_, _, rfl, .inr (.string List.prefix_rfl)⟩
  | stringEscape done _ =>
    refine .inl ⟨rfl, _, rfl, nofun, fun t ht => ?_⟩
    cases ht with
    | escape hps => exact .string hps
  | stringChar done _ _ _ =>
    refine .inl ⟨rfl, _, rfl, nofun, fun t ht => ?_⟩
    cases ht with
    | string hps => exact .string (reverse_prefix_of_cons hps)
  | escapeUnit done _ =>
    refine .inl ⟨rfl, _, rfl, nofun, fun t ht => ?_⟩
    cases ht with
    | hex hps _ => exact .escape hps
  | escapeShort done _ =>
    refine .inl ⟨rfl, _, rfl, nofun, fun t ht => ?_⟩
    cases ht with
    | string hps => exact .escape (reverse_prefix_of_cons hps)
  | hexOn done seen _ =>
    refine .inl ⟨rfl, _, rfl, nofun, fun t ht => ?_⟩
    cases ht with
    | hex hps _ => exact .hex hps _
  | hexEnd done _ _ =>
    refine .inl ⟨rfl, _, rfl, nofun, fun t ht => ?_⟩
    cases ht with
    | string hps => exact .hex (reverse_prefix_of_cons hps) _
  | numberOn _ =>
    refine .inl ⟨rfl, _, rfl, nofun, fun t ht => ?_⟩
    cases ht
    exact .number _ _ _
  | numberEnd _ _ _ => exact .inr ⟨_, _, rfl, .inr (.number _ _ _)⟩
  | wordBreak _ _ | stringBreak _ | escapeBreak _ | hexBreak _ _ | numberBreak _ => exact .inr ⟨_, _, rfl, .inl rfl⟩

/-- Where the scanner stops, its last token is broken. -/
theorem Step.stop {s : Scan} {c : Char} {ts : List Token} (h : Step c s none ts) :
    ∃ front t, ts = front ++ [t] ∧ t.isBroken = true := by
  cases h with
  | ground h => cases h; exact ⟨[], _, rfl, rfl⟩
  | wordOver t h => cases h; exact ⟨[t], _, rfl, rfl⟩
  | numberEnd _ _ h => cases h; exact ⟨[_], _, rfl, rfl⟩
  | wordBreak _ _ | stringBreak _ | escapeBreak _ | hexBreak _ _ | numberBreak _ => exact ⟨[], _, rfl, rfl⟩

/-- A word that is being read is one that there is. -/
def Sound : Scan → Prop
  | .word _ token => token.isWord = true
  | _ => True

private theorem Opening.sound {c : Char} {s : Scan} {ts : List Token} (h : Opening c (some s) ts) : s.Sound := by
  cases h with
  | word hword _ => exact hword
  | _ => trivial

private theorem Step.sound {s s' : Scan} {c : Char} {ts : List Token} (h : Step c s (some s') ts) (hs : s.Sound) :
    s'.Sound := by
  cases h with
  | ground h | wordOver _ h | numberEnd _ _ h => exact h.sound
  | wordOn _ => exact hs
  | _ => trivial

/-! ### Scanning up to the cut -/

private theorem run_cons (s : Scan) (c : Char) (cs : List Char) :
    (∃ s', (s.step c).1 = some s' ∧ run s (c :: cs) = (s.step c).2 ++ run s' cs) ∨
      (s.step c).1 = none ∧ run s (c :: cs) = (s.step c).2 := by
  cases hstep : s.step c with
  | mk next ts =>
    cases next with
    | none => exact .inr ⟨rfl, by rw [run, hstep]⟩
    | some s' => exact .inl ⟨s', rfl, by rw [run, hstep]⟩

/-- The first token after the beginning of one is what is being read, or is broken. -/
theorem run_inside {s : Scan} (hs : s ≠ .ground) (cs : List Char) :
    ∃ t ts, run s cs = t :: ts ∧ (t.isBroken = true ∨ s.Yields t) := by
  induction cs generalizing s with
  | nil =>
    cases s with
    | ground => exact absurd rfl hs
    | number x phase =>
      rw [run, finish]
      split
      · exact ⟨_, _, rfl, .inr (.number _ _ _)⟩
      · exact ⟨_, _, rfl, .inl rfl⟩
    | _ => exact ⟨_, _, rfl, .inl rfl⟩
  | cons c cs ih =>
    have hstep := (step_spec s c).inside hs
    rcases run_cons s c cs with ⟨s', hs', hrun⟩ | ⟨hnone, hrun⟩
    · rcases hstep with ⟨hts, s'', hs'', hground, hyields⟩ | ⟨t, ts, hts, ht⟩
      · obtain rfl : s' = s'' := Option.some.inj (hs'.symm.trans hs'')
        obtain ⟨t, ts, hrest, ht⟩ := ih hground
        exact ⟨t, ts, by rw [hrun, hts, hrest]; rfl, ht.imp_right (hyields t)⟩
      · exact ⟨t, ts ++ run s' cs, by rw [hrun, hts]; rfl, ht⟩
    · rcases hstep with ⟨-, s'', hs'', -⟩ | ⟨t, ts, hts, ht⟩
      · rw [hnone] at hs''
        cases hs''
      · exact ⟨t, ts, by rw [hrun, hts], ht⟩

/-- A text with more than white space has a token. -/
private theorem run_ground_ne_nil {cs : List Char} (h : ∃ c ∈ cs, isSpace c = false) : run .ground cs ≠ [] := by
  induction cs with
  | nil => obtain ⟨c, hc, -⟩ := h; cases hc
  | cons c cs ih =>
    have hopening := opening_stepGround c
    rcases run_cons .ground c cs with ⟨s', hs', hrun⟩ | ⟨hnone, hrun⟩
    · have hs'' : (stepGround c).1 = some s' := hs'
      have hrun' : run .ground (c :: cs) = (stepGround c).2 ++ run s' cs := hrun
      rw [hs''] at hopening
      rw [hrun']
      by_cases hground : s' = .ground
      · subst hground
        generalize hts : (stepGround c).2 = ts at hopening
        cases hopening with
        | space hspace =>
          obtain ⟨d, hd, hdspace⟩ := h
          rcases List.mem_cons.1 hd with rfl | hd
          · rw [hspace] at hdspace; cases hdspace
          · exact ih ⟨d, hd, hdspace⟩
        | mark _ _ => exact List.cons_ne_nil _ _
      · obtain ⟨t, ts, hrest, -⟩ := run_inside hground cs
        rw [hrest]
        simp
    · obtain ⟨front, t, hts, -⟩ := (hnone ▸ step_spec .ground c : Step c .ground none _).stop
      rw [hrun, hts]
      simp

/-- A character that does not belong to a number breaks it, or ends it and is read again. -/
private theorem run_number_over {x : NumberLiteral} {phase : NumberPhase} {c : Char} (h : x.extend? phase c = none)
    (cs : List Char) :
    run (.number x phase) (c :: cs) = [.brokenNumber false] ∨
      phase.complete = true ∧ run (.number x phase) (c :: cs) = .number x :: run .ground (c :: cs) := by
  by_cases hcomplete : phase.complete = true ∧ ¬ (phase = .zero ∧ isDigit c = true)
  · exact .inr ⟨hcomplete.1, run_number_end h hcomplete cs⟩
  · refine .inl ?_
    rw [run, step, stepNumber, h]
    simp only [if_neg hcomplete]

/-- The scanner is inside a number after the characters `cs`, and the first one of `ds` goes on with it. -/
def InNumber (s : Scan) (cs ds : List Char) : Prop :=
  ∃ x phase, cs.foldlM (fun s c => (step s c).1) s = some (.number x phase) ∧
    ∃ c ds', ds = c :: ds' ∧ (x.extend? phase c).isSome = true

/-- The tokens of the characters after a cut, against the end of the text there. -/
theorem cut_finish {s : Scan} (hs : s.Sound) {ds : List Char} (hds : ∃ c ∈ ds, isSpace c = false) :
    Cut (s.InNumber [] ds) (run s ds) s.finish := by
  by_cases hground : s = .ground
  · subst hground
    obtain ⟨t, ts, hts⟩ := List.exists_cons_of_ne_nil (run_ground_ne_nil hds)
    rw [hts]
    exact .before t ts
  obtain ⟨t, ts, hts, ht⟩ := run_inside hground ds
  -- whatever has been read of a token, no mark is left of it
  have hmark : ∃ u, s.finish = [u] ∧ u.isMark = false := by
    cases s with
    | ground => exact absurd rfl hground
    | number x phase =>
      rw [finish]
      split <;> exact ⟨_, rfl, rfl⟩
    | _ => exact ⟨_, rfl, rfl⟩
  obtain ⟨u, hu, hmark⟩ := hmark
  rcases ht with hbroken | hyields
  · rw [hts, hu]
    exact .within (.broken hbroken hmark) ts
  · cases hyields with
    | word rest t => rw [hts]; exact .within (.word hs) ts
    | string h => rw [hts]; exact .within (.string h) ts
    | escape h => rw [hts]; exact .within (.string h) ts
    | hex h seen => rw [hts]; exact .within (.string h) ts
    | number x y phase =>
      obtain ⟨c, cs, rfl⟩ := List.exists_cons_of_ne_nil (List.ne_nil_of_mem hds.choose_spec.1)
      cases hextend : x.extend? phase c with
      | some next =>
        have hin : InNumber (.number x phase) [] (c :: cs) := ⟨x, phase, rfl, c, cs, rfl, by rw [hextend]; rfl⟩
        rw [hts, finish]
        split
        · exact .within (.number hin _ _) ts
        · exact .within (.brokenNumber hin _) ts
      | none =>
        rcases run_number_over hextend cs with hbreak | ⟨hcomplete, hover⟩
        · rw [hbreak] at hts
          cases hts
        · -- the number ends before the cut, and what follows it has a token of its own
          obtain ⟨t, ts', hts'⟩ := List.exists_cons_of_ne_nil (run_ground_ne_nil hds)
          rw [hover, hts', finish, if_pos hcomplete]
          exact .after _ (.before t ts')

/-- Cutting a text cuts its tokens, unless only white space is missing. -/
theorem cut_run {s : Scan} (hs : s.Sound) (cs : List Char) {ds : List Char} (hds : ∃ c ∈ ds, isSpace c = false) :
    Cut (s.InNumber cs ds) (run s (cs ++ ds)) (run s cs) := by
  induction cs generalizing s with
  | nil => exact cut_finish hs hds
  | cons c cs ih =>
    have hspec := step_spec s c
    cases hstep : s.step c with
    | mk next ts =>
      rw [hstep] at hspec
      cases next with
      | none =>
        obtain ⟨front, t, rfl, hbroken⟩ := hspec.stop
        have hmark : t.isMark = false := by cases t <;> simp_all [Token.isMark, Token.isBroken]
        rw [List.cons_append, run, run, hstep]
        exact Cut.append (.within (.broken hbroken hmark) []) front
      | some s' =>
        have hin : s.InNumber (c :: cs) ds = s'.InNumber cs ds := by
          unfold InNumber
          rw [List.foldlM_cons, hstep]
          rfl
        rw [List.cons_append, run, run, hstep, hin]
        exact Cut.append (ih (hspec.sound hs)) ts

end Scan

end SchemaDecl.Json
