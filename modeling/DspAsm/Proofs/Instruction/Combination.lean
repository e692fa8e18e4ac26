import DspAsm.Instruction.Assembly
import DspAsm.Proofs.Outcome

namespace DspAsm

/-! ## One slot -/

section

variable {α : Type} {joint : α → α → α → Prop} {merge? : α → α → Option α} {command : α → Command}
  {commands permuted : List α} {held after : Option α} {next : α}

/-- What a slot holds after the commands for it: nothing if there are none, a single command, or the command that does
what two joint ones ask for. -/
inductive Fills (joint : α → α → α → Prop) : List α → Option α → Prop
  | none : Fills joint [] none
  | one (command : α) : Fills joint [command] (some command)
  | two {first second merged : α} (both : joint first second merged) : Fills joint [first, second] (some merged)

structure Merges (merge? : α → α → Option α) (joint : α → α → α → Prop) : Prop where
  eq_some : ∀ first second merged, merge? first second = some merged ↔ joint first second merged
  full : ∀ first second merged, joint first second merged → ∀ next, merge? merged next = none

theorem refill_some_eq_ok {previous : α} :
    refill command merge? (some previous) next = .ok after ↔
      ∃ merged, merge? previous next = some merged ∧ some merged = after := by
  cases merged : merge? previous next <;> simp [refill, merged]

theorem exists_conflict_of_refill {fault : Fault} (refused : refill command merge? held next = .error fault) :
    ∃ slot first second, fault = .conflict slot first second := by
  unfold refill at refused
  split at refused
  · cases refused
  · split at refused <;> cases refused
    exact ⟨_, _, _, rfl⟩

theorem fills_append_singleton (merges : Merges merge? joint) :
    Fills joint (commands ++ [next]) after ↔
      ∃ held, Fills joint commands held ∧ refill command merge? held next = .ok after := by
  constructor
  · intro fills
    generalize list : commands ++ [next] = all at fills
    cases fills with
    | none => simp at list
    | one last =>
      obtain ⟨rfl, rfl⟩ := List.append_singleton_inj.mp (list.trans (List.nil_append [last]).symm)
      exact ⟨none, .none, rfl⟩
    | @two first second merged both =>
      obtain ⟨rfl, rfl⟩ := List.append_singleton_inj.mp (list.trans (List.singleton_append).symm)
      exact ⟨some first, .one first, refill_some_eq_ok.mpr ⟨merged, (merges.eq_some ..).mpr both, rfl⟩⟩
  · rintro ⟨held, fills, refilled⟩
    cases fills with
    | none =>
      cases refilled
      exact .one next
    | one previous =>
      obtain ⟨merged, both, rfl⟩ := refill_some_eq_ok.mp refilled
      exact .two ((merges.eq_some ..).mp both)
    | two both =>
      obtain ⟨merged, again, -⟩ := refill_some_eq_ok.mp refilled
      rw [merges.full _ _ _ both] at again
      cases again

theorem foldlM_refill (merges : Merges merge? joint) :
    commands.foldlM (refill command merge?) none = .ok held ↔ Fills joint commands held := by
  induction commands using List.reverseRecOn generalizing held with
  | nil =>
    rw [List.foldlM_nil, pure_eq_ok]
    constructor
    · rintro rfl
      exact .none
    · intro fills
      cases fills
      rfl
  | append_singleton commands next ih =>
    simp only [foldlM_append_singleton_eq_ok, ih]
    exact (fills_append_singleton merges).symm

theorem Fills.perm (symmetric : ∀ first second merged, joint first second merged → joint second first merged)
    (same : commands.Perm permuted) (fills : Fills joint commands held) : Fills joint permuted held := by
  cases fills with
  | none =>
    rw [List.nil_perm.mp same]
    exact .none
  | one command =>
    rw [← List.singleton_perm.mp same]
    exact .one command
  | two both =>
    rcases List.pair_perm.mp same with rfl | rfl
    · exact .two both
    · exact .two (symmetric _ _ _ both)

theorem merges_never : Merges (fun _ _ : α => none) fun _ _ _ => False :=
  ⟨by simp, by simp⟩

end

/-! ## The X bus and the Y bus -/

inductive Pairs {α : Type} (move : XySource → α) (other : α) (both : XySource → α) : α → α → α → Prop
  | before (source : XySource) : Pairs move other both (move source) other (both source)
  | behind (source : XySource) : Pairs move other both other (move source) (both source)

theorem Pairs.symm {α : Type} {move both : XySource → α} {other first second merged : α}
    (paired : Pairs move other both first second merged) : Pairs move other both second first merged := by
  cases paired with
  | before source => exact .behind source
  | behind source => exact .before source

theorem merges_mergePair? {α : Type} [DecidableEq α] {moved? : α → Option XySource} {move both : XySource → α}
    {other : α} (moved : ∀ command source, moved? command = some source ↔ command = move source)
    (rests : moved? other = none) (done : ∀ source, moved? (both source) = none) (apart : ∀ source, both source ≠ other) :
    Merges (mergePair? moved? other both) (Pairs move other both) where
  eq_some first second merged := by
    constructor
    · intro merges
      unfold mergePair? at merges
      split_ifs at merges with behind before
      · obtain ⟨source, found, rfl⟩ := Option.map_eq_some_iff.mp merges
        rw [behind, (moved first source).mp found]
        exact .before source
      · obtain ⟨source, found, rfl⟩ := Option.map_eq_some_iff.mp merges
        rw [before, (moved second source).mp found]
        exact .behind source
    · rintro (source | source)
      · rw [mergePair?, if_pos rfl, (moved _ source).mpr rfl]
        rfl
      · have distinct : move source ≠ other := by
          rintro same
          rw [← same, (moved _ source).mpr rfl] at rests
          cases rests
        rw [mergePair?, if_neg distinct, if_pos rfl, (moved _ source).mpr rfl]
        rfl
  full := by
    have full (source : XySource) (next : α) : mergePair? moved? other both (both source) next = none := by
      rw [mergePair?, done, if_neg (apart source)]
      split <;> rfl
    rintro _ _ _ (source | source) next
    · exact full source next
    · exact full source next

theorem XBus.merges : Merges merge? (Pairs movSrcX movMulP movSrcXMulP) :=
  merges_mergePair? (fun command _ => by cases command <;> simp [movedToX?]) rfl (fun _ => rfl) nofun

theorem YBus.merges : Merges merge? (Pairs movSrcY movAluA movSrcYAluA) :=
  merges_mergePair? (fun command _ => by cases command <;> simp [movedToY?]) rfl (fun _ => rfl) nofun

/-! ## Commands by their slots -/

namespace Command

def alu? : Command → Option AluOp
  | alu op => some op
  | xBus _ | yBus _ | d1Bus _ | special _ => none

def xBus? : Command → Option XBus
  | xBus command => some command
  | alu _ | yBus _ | d1Bus _ | special _ => none

def yBus? : Command → Option YBus
  | yBus command => some command
  | alu _ | xBus _ | d1Bus _ | special _ => none

def d1Bus? : Command → Option D1Bus
  | d1Bus command => some command
  | alu _ | xBus _ | yBus _ | special _ => none

def special? : Command → Option Special
  | special command => some command
  | alu _ | xBus _ | yBus _ | d1Bus _ => none

end Command

/-- The instruction does what the commands ask for and nothing else. -/
inductive Instruction.CarriesOut : Instruction → List Command → Prop
  | special (command : Special) : CarriesOut (.special command) [.special command]
  | compound {commands : List Command} {alu : Option AluOp} {xBus : Option XBus} {yBus : Option YBus}
      {d1Bus : Option D1Bus} (plain : commands.filterMap Command.special? = [])
      (fillsAlu : Fills (fun _ _ _ => False) (commands.filterMap Command.alu?) alu)
      (fillsXBus : Fills (Pairs .movSrcX .movMulP .movSrcXMulP) (commands.filterMap Command.xBus?) xBus)
      (fillsYBus : Fills (Pairs .movSrcY .movAluA .movSrcYAluA) (commands.filterMap Command.yBus?) yBus)
      (fillsD1Bus : Fills (fun _ _ _ => False) (commands.filterMap Command.d1Bus?) d1Bus) :
      CarriesOut (.compound ⟨alu.getD .nop, xBus.getD .nop, yBus.getD .nop, d1Bus.getD .nop⟩) commands

/-! ## Drafts -/

open Command (alu? xBus? yBus? d1Bus? special?)

@[mk_iff]
structure TakenSlots.FilledBy (taken : TakenSlots) (commands : List Command) (after : TakenSlots) : Prop where
  plain : commands.filterMap special? = []
  first : taken.first.or commands.head? = after.first
  alu : (commands.filterMap alu?).foldlM (refill .alu fun _ _ => none) taken.alu = .ok after.alu
  xBus : (commands.filterMap xBus?).foldlM (refill .xBus XBus.merge?) taken.xBus = .ok after.xBus
  yBus : (commands.filterMap yBus?).foldlM (refill .yBus YBus.merge?) taken.yBus = .ok after.yBus
  d1Bus : (commands.filterMap d1Bus?).foldlM (refill .d1Bus fun _ _ => none) taken.d1Bus = .ok after.d1Bus

namespace TakenSlots

variable {taken after : TakenSlots} {commands later : List Command}

theorem filledBy_nil : taken.FilledBy [] after ↔ taken = after := by
  constructor
  · rintro ⟨-, first, alu, xBus, yBus, d1Bus⟩
    cases taken
    cases after
    simp_all [pure, Except.pure]
  · rintro rfl
    exact ⟨rfl, Option.or_none, rfl, rfl, rfl, rfl⟩

theorem filledBy_append :
    taken.FilledBy (commands ++ later) after ↔
      ∃ between, taken.FilledBy commands between ∧ between.FilledBy later after := by
  constructor
  · rintro ⟨plain, first, alu, xBus, yBus, d1Bus⟩
    rw [List.filterMap_append, List.append_eq_nil_iff] at plain
    rw [List.head?_append] at first
    rw [List.filterMap_append, List.foldlM_append, bind_eq_ok] at alu xBus yBus d1Bus
    obtain ⟨hasAlu, alu, alu'⟩ := alu
    obtain ⟨hasXBus, xBus, xBus'⟩ := xBus
    obtain ⟨hasYBus, yBus, yBus'⟩ := yBus
    obtain ⟨hasD1Bus, d1Bus, d1Bus'⟩ := d1Bus
    refine ⟨⟨taken.first.or commands.head?, hasAlu, hasXBus, hasYBus, hasD1Bus⟩,
      ⟨plain.1, rfl, alu, xBus, yBus, d1Bus⟩, ⟨plain.2, ?_, alu', xBus', yBus', d1Bus'⟩⟩
    rw [← first, Option.or_assoc]
  · rintro ⟨between, ⟨plain, first, alu, xBus, yBus, d1Bus⟩, ⟨plain', first', alu', xBus', yBus', d1Bus'⟩⟩
    constructor <;> simp only [List.filterMap_append, List.foldlM_append, List.head?_append]
    · rw [plain, plain', List.append_nil]
    · rw [← first', ← first, Option.or_assoc]
    · rw [alu, ok_bind, alu']
    · rw [xBus, ok_bind, xBus']
    · rw [yBus, ok_bind, yBus']
    · rw [d1Bus, ok_bind, d1Bus']

end TakenSlots

namespace Draft

variable {taken after : TakenSlots} {commands : List Command}

theorem add_eq_slots {next : Command} : (slots taken).add next = .ok (slots after) ↔ taken.FilledBy [next] after := by
  rw [TakenSlots.filledBy_iff]
  cases taken
  cases after
  cases next with
  | special command =>
    refine iff_of_false ?_ (by simp [special?])
    rw [add]
    split <;> simp
  | alu op | xBus command | yBus command | d1Bus command =>
    simp only [add, bind_eq_ok, pure_eq_ok, slots.injEq, TakenSlots.mk.injEq, List.filterMap_cons, List.filterMap_nil,
      alu?, xBus?, yBus?, d1Bus?, special?, List.head?_cons, Option.or_some, List.foldlM_cons, List.foldlM_nil,
      bind_pure]
    grind

theorem foldlM_add_special {command : Special} {later : List Command} {draft : Draft}
    (run : later.foldlM add (special command) = .ok draft) : draft = special command := by
  cases later with
  | nil => exact (pure_eq_ok.mp run).symm
  | cons next later =>
    rw [List.foldlM_cons, bind_eq_ok] at run
    -- A special command refuses whatever comes next.
    obtain ⟨_, added, _⟩ := run
    cases added

theorem foldlM_add_eq_slots :
    commands.foldlM add (slots taken) = .ok (slots after) ↔ taken.FilledBy commands after := by
  induction commands generalizing taken with
  | nil => rw [List.foldlM_nil, pure_eq_ok, slots.injEq, TakenSlots.filledBy_nil]
  | cons next commands ih =>
    rw [List.foldlM_cons, bind_eq_ok, ← List.singleton_append, TakenSlots.filledBy_append]
    constructor
    · rintro ⟨draft, added, run⟩
      cases draft with
      | special command => cases foldlM_add_special run
      | slots between => exact ⟨between, add_eq_slots.mp added, ih.mp run⟩
    · rintro ⟨between, filled, later⟩
      exact ⟨slots between, add_eq_slots.mpr filled, ih.mpr later⟩

theorem of_add_eq_special {draft : Draft} {next : Command} {command : Special}
    (added : draft.add next = .ok (special command)) :
    next = .special command ∧ ∃ taken : TakenSlots, draft = slots taken ∧ taken.first = none := by
  cases draft with
  | special held => cases added
  | slots taken =>
    cases next with
    | special next =>
      rw [add] at added
      split at added
      · rename_i free
        cases added
        exact ⟨rfl, taken, rfl, free⟩
      · cases added
    | _ =>
      simp only [add, bind_eq_ok, pure_eq_ok] at added
      obtain ⟨_, _, made⟩ := added
      cases made

theorem foldlM_add_eq_special {command : Special} :
    commands.foldlM add (slots {}) = .ok (special command) ↔ commands = [.special command] := by
  constructor
  · intro run
    induction commands using List.reverseRecOn with
    | nil => cases run
    | append_singleton commands next =>
      obtain ⟨draft, run, added⟩ := foldlM_append_singleton_eq_ok.mp run
      obtain ⟨rfl, taken, rfl, free⟩ := of_add_eq_special added
      -- No slot has been taken, so there was no command before.
      have first := (foldlM_add_eq_slots.mp run).first
      rw [free, Option.none_or, List.head?_eq_none_iff] at first
      rw [first, List.nil_append]
  · rintro rfl
    rfl

theorem exists_conflict_of_add {draft : Draft} {next : Command} {fault : Fault}
    (refused : draft.add next = .error fault) : ∃ slot first second, fault = .conflict slot first second := by
  cases draft with
  | special held =>
    cases refused
    exact ⟨_, _, _, rfl⟩
  | slots taken =>
    cases next with
    | special next =>
      rw [add] at refused
      split at refused <;> cases refused
      exact ⟨_, _, _, rfl⟩
    | _ =>
      simp only [add, bind_eq_error, pure, Except.pure, reduceCtorEq, and_false, exists_false, or_false] at refused
      exact exists_conflict_of_refill refused

end Draft

/-! ## Instructions -/

namespace Instruction

variable {commands permuted : List Command} {instruction : Instruction}

theorem ofCommands_eq_ok : ofCommands commands = .ok instruction ↔ instruction.CarriesOut commands := by
  simp only [ofCommands, bind_eq_ok, pure_eq_ok]
  constructor
  · rintro ⟨draft, run, rfl⟩
    cases draft with
    | special command =>
      rw [Draft.foldlM_add_eq_special.mp run]
      exact .special command
    | slots taken =>
      obtain ⟨plain, -, alu, xBus, yBus, d1Bus⟩ := Draft.foldlM_add_eq_slots.mp run
      exact .compound plain ((foldlM_refill merges_never).mp alu) ((foldlM_refill XBus.merges).mp xBus)
        ((foldlM_refill YBus.merges).mp yBus) ((foldlM_refill merges_never).mp d1Bus)
  · intro carries
    cases carries with
    | special command => exact ⟨_, Draft.foldlM_add_eq_special.mpr rfl, rfl⟩
    | @compound _ alu xBus yBus d1Bus plain fillsAlu fillsXBus fillsYBus fillsD1Bus =>
      refine ⟨.slots ⟨commands.head?, alu, xBus, yBus, d1Bus⟩, Draft.foldlM_add_eq_slots.mpr ?_, rfl⟩
      exact ⟨plain, Option.none_or, (foldlM_refill merges_never).mpr fillsAlu,
        (foldlM_refill XBus.merges).mpr fillsXBus, (foldlM_refill YBus.merges).mpr fillsYBus,
        (foldlM_refill merges_never).mpr fillsD1Bus⟩

theorem CarriesOut.commands_eq {command : Special} (carries : CarriesOut (.special command) commands) :
    commands = [.special command] := by
  cases carries
  rfl

theorem CarriesOut.perm (same : commands.Perm permuted) (carries : instruction.CarriesOut commands) :
    instruction.CarriesOut permuted := by
  cases carries with
  | special command =>
    rw [← List.singleton_perm.mp same]
    exact .special command
  | compound plain fillsAlu fillsXBus fillsYBus fillsD1Bus =>
    have plain' := (same.filterMap special?).symm
    rw [plain, List.perm_nil] at plain'
    exact .compound plain' (fillsAlu.perm (fun _ _ _ => id) (same.filterMap _))
      (fillsXBus.perm (fun _ _ _ => Pairs.symm) (same.filterMap _))
      (fillsYBus.perm (fun _ _ _ => Pairs.symm) (same.filterMap _))
      (fillsD1Bus.perm (fun _ _ _ => id) (same.filterMap _))

theorem ofCommands_perm (same : commands.Perm permuted) :
    ofCommands commands = .ok instruction ↔ ofCommands permuted = .ok instruction := by
  rw [ofCommands_eq_ok, ofCommands_eq_ok]
  exact ⟨.perm same, .perm same.symm⟩

/-- Commands are put together exactly as far as their slots allow, and else they conflict. Their order has no influence
on whether there is an instruction or on which one it is. -/
theorem ofCommands_slotwise (commands : List Command) :
    (∀ instruction, ofCommands commands = .ok instruction ↔ instruction.CarriesOut commands) ∧
    (∀ fault, ofCommands commands = .error fault → ∃ slot first second, fault = .conflict slot first second) ∧
    (∀ permuted, commands.Perm permuted →
      ∀ instruction, ofCommands commands = .ok instruction ↔ ofCommands permuted = .ok instruction) := by
  refine ⟨fun _ => ofCommands_eq_ok, ?_, fun _ same _ => ofCommands_perm same⟩
  intro fault refused
  simp only [ofCommands, bind_eq_error, pure, Except.pure, reduceCtorEq, and_false, exists_false, or_false] at refused
  obtain ⟨_, next, _, _, draft, _, refused⟩ := foldlM_eq_error.mp refused
  exact Draft.exists_conflict_of_add refused

end Instruction

end DspAsm
