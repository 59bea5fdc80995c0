import Mathlib.Data.List.Basic
import Mathlib.Data.List.Infix
import Mathlib.Data.List.TakeDrop

/-!
# Two copies that are brought over each other

Two sides each have a copy of a list, or none. Each side looks once at what the other one
has, asks for as many elements as it saw, and writes what it is given over its own copy;
elements past the end of what it is given stay (`writtenOver`). Sides look, ask and write in any
order.

The copies come out equal when no side gives its copy away while it still has to write
what the other one gave it (`Inv.moves`, `agree`); otherwise both may write and the copies
are exchanged. It does no harm when one copy is a prefix of the other, since both sides
then write the longer one.
-/

set_option autoImplicit false

namespace P2Sync.TwoCopies

universe u

variable {α : Type u}

/-- One list written over another from its start. -/
def writtenOver (new old : List α) : List α := new ++ old.drop new.length

@[simp] theorem writtenOver_nil_left (old : List α) : writtenOver [] old = old := rfl

@[simp] theorem writtenOver_nil_right (new : List α) : writtenOver new [] = new := by
  simp [writtenOver]

@[simp] theorem writtenOver_self (list : List α) : writtenOver list list = list := by
  simp [writtenOver]

theorem length_writtenOver (new old : List α) :
    (writtenOver new old).length = max new.length old.length := by
  rw [writtenOver, List.length_append, List.length_drop]
  omega

theorem writtenOver_of_le {new old : List α} (short : old.length ≤ new.length) :
    writtenOver new old = new := by
  rw [writtenOver, List.drop_of_length_le short, List.append_nil]

theorem writtenOver_of_reaches {new old : List α} (reaches : new <+: old) :
    writtenOver new old = old := by
  obtain ⟨rest, rfl⟩ := reaches
  rw [writtenOver, List.drop_left]

/-- Lists of which one goes on from the other come out the same either way. -/
theorem writtenOver_comm {first second : List α}
    (comparable : first <+: second ∨ second <+: first) :
    writtenOver first second = writtenOver second first := by
  rcases comparable with reaches | reaches
  · rw [writtenOver_of_reaches reaches, writtenOver_of_le reaches.length_le]
  · rw [writtenOver_of_reaches reaches, writtenOver_of_le reaches.length_le]

/-- What was written over a list, written over the list it came from: as much of it as either
of the two was long is enough. -/
theorem writtenOver_take_writtenOver {mine theirs : List α} {count : Nat}
    (covers : theirs.length ≤ count) :
    writtenOver ((writtenOver mine theirs).take count) mine = writtenOver mine theirs := by
  rcases Nat.le_total theirs.length mine.length with short | long
  · rw [writtenOver_of_le short]
    exact writtenOver_of_reaches (List.take_prefix count mine)
  · have whole : (writtenOver mine theirs).length ≤ count := by
      rw [length_writtenOver, max_eq_right long]
      exact covers
    rw [List.take_of_length_le whole, writtenOver_of_le]
    rw [length_writtenOver]
    exact le_max_left _ _

/-! ## Sides -/

/-- How far a side has come: it may have seen the other copy, it is going to ask for as much
as it saw, it has yet to write what it was given, or it has finished. -/
inductive Phase (α : Type u) where
  | early (seen : Option (Option (List α)))
  | due (seen : List α)
  | held (result : List α)
  | closed

/-- One side: the copy it started with, the one it has, and how far it has come. -/
structure Side (α : Type u) where
  initial : Option (List α)
  copy : Option (List α)
  phase : Phase α

/-- A side still has to look or to ask. -/
def Phase.IsOpen : Phase α → Prop
  | .early _ => True
  | .due _ => True
  | _ => False

/-- What a side can be seen to have: its first copy, and its last one when it has finished. -/
def Sees (other : Side α) (seen : Option (List α)) : Prop :=
  seen = other.initial ∨ other.phase = .closed ∧ seen = other.copy

/-- What a side does, next to the other one. -/
inductive Moves (me other : Side α) : Side α → Prop where
  | looks {seen : Option (Option (List α))} (copy : Option (List α))
      (early : me.phase = .early seen)
      (sees : Sees other copy) : Moves me other { me with phase := .early (some copy) }
  | forgets {seen : Option (Option (List α))} (early : me.phase = .early seen) :
      Moves me other { me with phase := .early none }
  | plans {seen : List α} (early : me.phase = .early (some (some seen))) :
      Moves me other { me with phase := .due seen }
  | passes {seen : Option (List α)} (early : me.phase = .early (some seen))
      (needless : seen = none ∨ seen = me.initial) : Moves me other { me with phase := .closed }
  | receives {seen : List α} (given : List α) (count : Nat) (due : me.phase = .due seen)
      (has : other.copy = some given) (enough : seen.length ≤ count) :
      Moves me other
        { me with phase := .held (TwoCopies.writtenOver (given.take count) (me.copy.getD [])) }
  | misses {seen : List α} (due : me.phase = .due seen) (lacks : other.copy = none) :
      Moves me other { me with phase := .closed }
  | writes {result : List α} (held : me.phase = .held result) :
      Moves me other { me with copy := some result, phase := .closed }
  | fails {result : List α} (held : me.phase = .held result) (lacks : me.copy = none) :
      Moves me other { me with phase := .closed }

/-- A side gives its copy away before it has written what it was given, and the two copies
differ. -/
def Crosses (me other : Side α) : Prop :=
  (∃ seen, me.phase = .due seen) ∧ (∃ result, other.phase = .held result) ∧
    ¬ (me.copy.getD [] <+: other.copy.getD [] ∨ other.copy.getD [] <+: me.copy.getD [])

/-! ## The invariant -/

/-- What holds of one side, next to the other one. -/
structure Inv (me other : Side α) : Prop where
  kept : me.phase ≠ .closed → me.copy = me.initial
  early : ∀ seen, me.phase = .early (some seen) → Sees other seen
  due : ∀ seen, me.phase = .due seen → Sees other (some seen)
  held : ∀ result, me.phase = .held result → other.phase ≠ .closed →
    ∃ given, other.initial = some given ∧ result = writtenOver given (me.initial.getD [])
  heldBoth : ∀ result result', me.phase = .held result → other.phase = .held result' →
    result = result'
  heldOver : ∀ result, me.phase = .held result → other.phase = .closed →
    other.copy = none ∨ other.copy = some result
  overOpen : me.phase = .closed → other.phase.IsOpen →
    me.copy = none ∨ me.copy = some (writtenOver (other.initial.getD []) (me.initial.getD []))
  overBoth : me.phase = .closed → other.phase = .closed →
    me.copy = none ∨ other.copy = none ∨ me.copy = other.copy

/-- Two sides, each with what holds of it. -/
structure Both (me other : Side α) : Prop where
  mine : Inv me other
  theirs : Inv other me

theorem Both.symm {me other : Side α} (both : Both me other) : Both other me :=
  ⟨both.theirs, both.mine⟩

/-- Sides that have not begun. -/
theorem both_start (mine theirs : Option (List α)) :
    Both (⟨mine, mine, .early none⟩ : Side α) ⟨theirs, theirs, .early none⟩ := by
  have start : ∀ mine theirs : Option (List α),
      Inv (⟨mine, mine, .early none⟩ : Side α) ⟨theirs, theirs, .early none⟩ := fun _ _ =>
    { kept := fun _ => rfl
      early := fun _ looked => absurd (Phase.early.inj looked) (Option.some_ne_none _).symm
      due := fun _ asks => nomatch asks
      held := fun _ holds => nomatch holds
      heldBoth := fun _ _ holds => nomatch holds
      heldOver := fun _ holds => nomatch holds
      overOpen := fun finished => nomatch finished
      overBoth := fun finished => nomatch finished }
  exact ⟨start mine theirs, start theirs mine⟩

section Steps

variable {me other : Side α}

theorem Phase.IsOpen.ne_closed {phase : Phase α} (opened : phase.IsOpen) : phase ≠ .closed := by
  rintro rfl
  exact opened

/-- Seeing only depends on the first copy and on what is left in the end. -/
theorem sees_of_open {copy : Option (List α)} (opened : other.phase ≠ .closed)
    (sees : Sees other copy) :
    copy = other.initial :=
  sees.resolve_right fun finished => opened finished.1

/-- What the other side has seen, or asks for, while this one has not finished is the first
copy of this one. -/
theorem Both.early_initial (both : Both me other) (going : me.phase ≠ .closed)
    {seen : Option (List α)} (looked : other.phase = .early (some seen)) : seen = me.initial :=
  sees_of_open going (both.theirs.early seen looked)

theorem Both.due_initial (both : Both me other) (going : me.phase ≠ .closed) {seen : List α}
    (asks : other.phase = .due seen) : some seen = me.initial :=
  sees_of_open going (both.theirs.due seen asks)

/-- Of a side that has finished, only its copy is left to account for. -/
theorem Inv.of_closed (closed : me.phase = .closed)
    (overOpen : other.phase.IsOpen → me.copy = none ∨
      me.copy = some (writtenOver (other.initial.getD []) (me.initial.getD [])))
    (overBoth : other.phase = .closed →
      me.copy = none ∨ other.copy = none ∨ me.copy = other.copy) : Inv me other where
  kept going := absurd closed going
  early _ looked := nomatch closed.symm.trans looked
  due _ asks := nomatch closed.symm.trans asks
  held _ holds := nomatch closed.symm.trans holds
  heldBoth _ _ holds := nomatch closed.symm.trans holds
  heldOver _ holds := nomatch closed.symm.trans holds
  overOpen _ := overOpen
  overBoth _ := overBoth

/-- A side that looks, forgets or plans stays open. -/
theorem Both.opens (both : Both me other) {phase : Phase α} (before : me.phase.IsOpen)
    (after : phase.IsOpen) (early : ∀ seen, phase = .early (some seen) → Sees other seen)
    (due : ∀ seen, phase = .due seen → Sees other (some seen)) :
    Both { me with phase := phase } other where
  mine :=
    { kept := fun _ => both.mine.kept before.ne_closed
      early := early
      due := due
      held := fun result holds => by
        obtain rfl : phase = .held result := holds
        exact after.elim
      heldBoth := fun result _ holds => by
        obtain rfl : phase = .held result := holds
        exact after.elim
      heldOver := fun result holds => by
        obtain rfl : phase = .held result := holds
        exact after.elim
      overOpen := fun finished => absurd finished after.ne_closed
      overBoth := fun finished => absurd finished after.ne_closed }
  theirs :=
    { kept := both.theirs.kept
      early := fun seen looked => Or.inl (both.early_initial before.ne_closed looked)
      due := fun seen asks => Or.inl (both.due_initial before.ne_closed asks)
      held := fun result holds _ => both.theirs.held result holds before.ne_closed
      heldBoth := fun _ result' _ holds => by
        obtain rfl : phase = .held result' := holds
        exact after.elim
      heldOver := fun _ _ finished => absurd finished after.ne_closed
      overOpen := fun finished _ => both.theirs.overOpen finished before
      overBoth := fun _ finished => absurd finished after.ne_closed }

/-- A side that has seen nothing, or what it has itself, can finish without writing. -/
theorem Both.ends (both : Both me other) (before : me.phase.IsOpen) {seen : Option (List α)}
    (sees : Sees other seen) (needless : seen = none ∨ seen = me.initial) :
    Both { me with phase := .closed } other := by
  have mine : me.copy = me.initial := both.mine.kept before.ne_closed
  have agree : other.phase = .closed →
      me.copy = none ∨ other.copy = none ∨ me.copy = other.copy := by
    intro finished
    rw [mine]
    cases first : me.initial with
    | none => exact Or.inl rfl
    | some x =>
        right
        rcases sees with rfl | ⟨_, rfl⟩
        · refine (both.theirs.overOpen finished before).imp_right fun written => ?_
          rw [written, first]
          rcases needless with none | same
          · rw [none, Option.getD_some, Option.getD_none, writtenOver_nil_right]
          · rw [same, first, Option.getD_some, writtenOver_self]
        · rw [← first]
          exact needless.imp_right Eq.symm
  exact
    { mine :=
        Inv.of_closed rfl
          (fun opened => by
            have first := sees_of_open opened.ne_closed sees
            dsimp only
            rw [mine, ← first]
            cases initial : me.initial with
            | none => exact Or.inl rfl
            | some x =>
                right
                rcases needless with rfl | rfl
                · rfl
                · rw [initial, Option.getD_some, writtenOver_self])
          agree
      theirs :=
        { kept := both.theirs.kept
          early := fun seen looked => Or.inl (both.early_initial before.ne_closed looked)
          due := fun seen asks => Or.inl (both.due_initial before.ne_closed asks)
          held := fun result holds _ => both.theirs.held result holds before.ne_closed
          heldBoth := fun _ _ _ holds => nomatch holds
          heldOver := fun result holds _ => by
            obtain ⟨given, initial, rfl⟩ := both.theirs.held result holds before.ne_closed
            have first := sees_of_open (by rw [holds]; exact nofun) sees
            right
            dsimp only
            rw [mine, initial, ← first]
            rcases needless with rfl | rfl
            · rw [Option.getD_none, writtenOver_nil_right]
            · rw [initial, Option.getD_some, writtenOver_self]
          overOpen := fun _ opened => opened.elim
          overBoth := fun finished _ => by
            rcases agree finished with none | none | same
            · exact Or.inr (Or.inl none)
            · exact Or.inl none
            · exact Or.inr (Or.inr same.symm) } }

/-- A side is given what the other one has. -/
theorem Both.receives (both : Both me other) {seen given : List α} {count : Nat}
    (asks : me.phase = .due seen) (has : other.copy = some given) (enough : seen.length ≤ count)
    (apart : ¬ Crosses me other) :
    Both { me with phase := .held (writtenOver (given.take count) (me.copy.getD [])) } other := by
  have before : me.phase.IsOpen := by
    rw [asks]
    trivial
  have mine : me.copy = me.initial := both.mine.kept before.ne_closed
  have whole : other.phase ≠ .closed → other.initial = some given ∧ given.take count = given := by
    intro going
    have first : other.initial = some given := (both.theirs.kept going).symm.trans has
    have same := (sees_of_open going (both.mine.due seen asks)).trans first
    obtain rfl := Option.some.inj same
    exact ⟨first, List.take_of_length_le enough⟩
  have meets : ∀ result, other.phase = .held result →
      writtenOver (given.take count) (me.copy.getD []) = result := by
    intro result holds
    have going : other.phase ≠ .closed := by
      rw [holds]
      exact nofun
    obtain ⟨given', initial, rfl⟩ := both.theirs.held result holds before.ne_closed
    obtain ⟨first, all⟩ := whole going
    rw [all, mine, initial, first, Option.getD_some, Option.getD_some]
    refine writtenOver_comm ?_
    by_contra crossing
    refine apart ⟨⟨seen, asks⟩, ⟨_, holds⟩, fun comparable => crossing ?_⟩
    rw [mine, initial, has, Option.getD_some, Option.getD_some] at comparable
    exact comparable.symm
  have fits : other.phase = .closed →
      other.copy = some (writtenOver (given.take count) (me.copy.getD [])) := by
    intro finished
    rcases both.theirs.overOpen finished before with none | written
    · exact absurd (has.symm.trans none) (Option.some_ne_none given)
    · rw [written, mine]
      obtain rfl := Option.some.inj (has.symm.trans written)
      rcases both.mine.due seen asks with first | ⟨_, last⟩
      · rw [← first, Option.getD_some, writtenOver_take_writtenOver enough]
      · obtain rfl := Option.some.inj (last.trans written)
        have long : (me.initial.getD []).length ≤
            (writtenOver (me.initial.getD []) (other.initial.getD [])).length := by
          rw [length_writtenOver]
          exact le_max_left _ _
        rw [List.take_of_length_le enough, writtenOver_of_le long]
  exact
    { mine :=
        { kept := fun _ => mine
          early := fun _ looked => nomatch looked
          due := fun _ asks => nomatch asks
          held := fun result holds going => by
            obtain rfl := Phase.held.inj holds
            obtain ⟨first, all⟩ := whole going
            exact ⟨given, first, by rw [all, mine]⟩
          heldBoth := fun result result' holds holds' => by
            obtain rfl := Phase.held.inj holds
            exact meets result' holds'
          heldOver := fun result holds finished => by
            obtain rfl := Phase.held.inj holds
            exact Or.inr (fits finished)
          overOpen := fun finished => nomatch finished
          overBoth := fun finished => nomatch finished }
      theirs :=
        { kept := both.theirs.kept
          early := fun seen looked => Or.inl (both.early_initial before.ne_closed looked)
          due := fun seen asks => Or.inl (both.due_initial before.ne_closed asks)
          held := fun result holds _ => both.theirs.held result holds before.ne_closed
          heldBoth := fun result result' holds holds' => by
            obtain rfl := Phase.held.inj holds'
            exact (meets result holds).symm
          heldOver := fun _ _ finished => nomatch finished
          overOpen := fun _ opened => opened.elim
          overBoth := fun _ finished => nomatch finished } }

/-- A side that writes what it was given, or cannot write at all, has finished. -/
theorem Both.writes (both : Both me other) {result : List α} {copy : Option (List α)}
    (holds : me.phase = .held result) (written : copy = none ∨ copy = some result) :
    Both { me with copy := copy, phase := .closed } other := by
  have going : me.phase ≠ .closed := by
    rw [holds]
    exact nofun
  have agree : other.phase = .closed → copy = none ∨ other.copy = none ∨ copy = other.copy := by
    intro finished
    rcases written with rfl | rfl
    · exact Or.inl rfl
    · refine Or.inr ((both.mine.heldOver result holds finished).imp_right fun same => ?_)
      exact same.symm
  exact
    { mine :=
        Inv.of_closed rfl
          (fun opened => by
            refine written.imp_right fun written => ?_
            obtain ⟨given, first, rfl⟩ := both.mine.held result holds opened.ne_closed
            dsimp only
            rw [written, first, Option.getD_some])
          agree
      theirs :=
        { kept := both.theirs.kept
          early := fun seen looked => Or.inl (both.early_initial going looked)
          due := fun seen asks => Or.inl (both.due_initial going asks)
          held := fun result holds _ => both.theirs.held result holds going
          heldBoth := fun _ _ _ holds => nomatch holds
          heldOver := fun result' holds' _ => by
            refine written.imp_right fun written => ?_
            dsimp only
            rw [written, both.mine.heldBoth result result' holds holds']
          overOpen := fun _ opened => opened.elim
          overBoth := fun finished _ => by
            rcases agree finished with none | none | same
            · exact Or.inr (Or.inl none)
            · exact Or.inl none
            · exact Or.inr (Or.inr same.symm) } }

/-- **Both sides keep the invariant**, as long as none gives its copy away before it has
written what it was given. -/
theorem Both.moves {me' : Side α} (both : Both me other) (moves : Moves me other me')
    (apart : ¬ Crosses me other) : Both me' other := by
  cases moves with
  | looks copy early sees =>
      refine both.opens (by rw [early]; trivial) trivial (fun seen looked => ?_)
        fun _ asks => nomatch asks
      obtain rfl := Option.some.inj (Phase.early.inj looked)
      exact sees
  | forgets early =>
      refine both.opens (by rw [early]; trivial) trivial (fun seen looked => ?_)
        fun _ asks => nomatch asks
      exact absurd (Phase.early.inj looked) (Option.some_ne_none seen).symm
  | plans early =>
      refine both.opens (by rw [early]; trivial) trivial (fun _ looked => nomatch looked)
        fun seen asks => ?_
      obtain rfl := Phase.due.inj asks
      exact both.mine.early _ early
  | passes early needless =>
      exact both.ends (by rw [early]; trivial) (both.mine.early _ early) needless
  | receives given count asks has enough => exact both.receives asks has enough apart
  | misses asks lacks =>
      refine both.ends (by rw [asks]; trivial) ?_ (Or.inl rfl)
      by_cases finished : other.phase = .closed
      · exact Or.inr ⟨finished, lacks.symm⟩
      · exact Or.inl (lacks.symm.trans (both.theirs.kept finished))
  | writes holds => exact both.writes holds (Or.inr rfl)
  | fails holds lacks => exact both.writes holds (Or.inl lacks)

omit me other in
/-- No list of a side, had or given, is longer than a bound. -/
structure Side.Within (bound : Nat) (side : Side α) : Prop where
  copy : ∀ list, side.copy = some list → list.length ≤ bound
  held : ∀ list, side.phase = .held list → list.length ≤ bound

/-- Writing one copy over another makes none longer. -/
theorem Side.Within.moves {bound : Nat} {me' : Side α} (mine : me.Within bound)
    (theirs : other.Within bound) (moves : Moves me other me') : me'.Within bound := by
  cases moves with
  | receives given count asks has enough =>
      refine ⟨mine.copy, fun list holds => ?_⟩
      obtain rfl := Phase.held.inj holds
      have old : (me.copy.getD []).length ≤ bound := by
        cases here : me.copy with
        | none => exact Nat.zero_le bound
        | some list => exact mine.copy list here
      rw [length_writtenOver, Nat.max_le]
      exact ⟨(List.length_take_le' count given).trans (theirs.copy given has), old⟩
  | writes holds =>
      refine ⟨fun list copied => ?_, fun _ holds => nomatch holds⟩
      obtain rfl := Option.some.inj copied
      exact mine.held _ holds
  | _ => exact ⟨mine.copy, fun _ holds => nomatch holds⟩

/-- Only a side that is going to ask gives its copy away. -/
theorem not_crosses_of_early {seen : Option (Option (List α))} (early : me.phase = .early seen) :
    ¬ Crosses me other := by
  rintro ⟨⟨seen', due⟩, _⟩
  exact nomatch early.symm.trans due

theorem not_crosses_of_held {result : List α} (held : me.phase = .held result) :
    ¬ Crosses me other := by
  rintro ⟨⟨seen, due⟩, _⟩
  exact nomatch held.symm.trans due

/-- **Sides that have finished agree** where both have a copy. -/
theorem Both.agree (both : Both me other) (mine : me.phase = .closed)
    (theirs : other.phase = .closed)
    {copy copy' : List α} (here : me.copy = some copy) (there : other.copy = some copy') :
    copy = copy' := by
  rcases both.mine.overBoth mine theirs with none | none | same
  · exact absurd (here.symm.trans none) (Option.some_ne_none copy)
  · exact absurd (there.symm.trans none) (Option.some_ne_none copy')
  · exact Option.some.inj (here.symm.trans (same.trans there))

end Steps

end P2Sync.TwoCopies
