import DspAsm.Proofs.Command.Binary
import DspAsm.Proofs.Command.Parse

namespace DspAsm
open CodeTable (name ofName?)

/-! ## Places of numbers -/

/-- A place for a number: a command with all of its operands but that one. -/
inductive NumberPlace where
  | move (destination : D1Destination)
  | transfer (hold : Bool) (direction : DmaDirection) (pointer : DmaPointer)
      (inward : ¬ (pointer = .prg ∧ direction = .ramToD0))
  | load (destination : MviDestination) (condition : Option Condition)
  | jump (condition : Option Condition)

namespace NumberPlace

def mnemonic : NumberPlace → String
  | move _ => "MOV"
  | transfer hold _ _ _ => if hold then "DMAH" else "DMA"
  | load _ _ => "MVI"
  | jump _ => "JMP"

def phrase (operand : String) : NumberPlace → Phrase
  | move destination => ["MOV", operand, name destination]
  | transfer hold .d0ToRam pointer _ => [if hold then "DMAH" else "DMA", "D0", name pointer, operand]
  | transfer hold .ramToD0 pointer _ => [if hold then "DMAH" else "DMA", name pointer, "D0", operand]
  | load destination none => ["MVI", operand, name destination]
  | load destination (some condition) => ["MVI", operand, name destination, name condition]
  | jump none => ["JMP", operand]
  | jump (some condition) => ["JMP", name condition, operand]

def Reserved (operand : String) : NumberPlace → Prop
  | move _ => (ofName? operand : Option D1Source).isSome ∨ isRegisterName operand
  | transfer _ _ _ _ => (ofName? operand : Option DmaCounter).isSome
  | load _ _ | jump _ => False

def value (scope : Scope) (operand : String) : NumberPlace → Except Fault Int
  | move _ | transfer _ _ _ _ => scope.constantValue operand
  | load destination _ => if destination = .pc then scope.labelValue operand else scope.constantValue operand
  | jump _ => scope.labelValue operand

def least : NumberPlace → Int
  | move _ | transfer _ _ _ _ | jump _ => 0
  | load _ none => -2 ^ 24
  | load _ (some _) => -2 ^ 18

def most : NumberPlace → Int
  | move _ | transfer _ _ _ _ => 255
  | load _ none => 2 ^ 24 - 1
  | load _ (some _) => 2 ^ 18 - 1
  | jump _ => 127

def command (number : Int) : NumberPlace → Command
  | move destination => .d1Bus (.movImm (UInt8.ofNat number.toNat) destination)
  | transfer hold direction pointer _ =>
    .special (.dma ⟨hold, Dma.plainAddMode, direction, pointer, .immediate (UInt8.ofNat number.toNat)⟩)
  | load destination condition => .special (.mvi ⟨destination, number, condition⟩)
  | jump condition => .special (.jump ⟨condition, UInt8.ofNat number.toNat⟩)

def parse (scope : Scope) (phrase : Phrase) : NumberPlace → Except Fault Command
  | move _ => (D1Bus.parse scope phrase).map .d1Bus
  | transfer _ _ _ _ => (Dma.parse scope phrase).map fun command => .special (.dma command)
  | load _ _ => (Mvi.parse scope phrase).map fun command => .special (.mvi command)
  | jump _ => (Jump.parse scope phrase).map fun command => .special (.jump command)

def decode (bits : Nat) : NumberPlace → Except Fault Command
  | move _ => (D1Bus.decode bits).map .d1Bus
  | transfer _ _ _ _ => (Dma.decode bits).map fun command => .special (.dma command)
  | load _ _ => (Mvi.decode bits).map fun command => .special (.mvi command)
  | jump _ => (Jump.decode bits).map fun command => .special (.jump command)

end NumberPlace

namespace Command

def encode : Command → Nat
  | alu op => CodeTable.bits op
  | xBus command => command.encode
  | yBus command => command.encode
  | d1Bus command => command.encode
  | special command => command.encode

def number? : Command → Option Int
  | d1Bus (.movImm immediate _) => some immediate.toNat
  | special (.dma ⟨_, _, _, _, .immediate length⟩) => some length.toNat
  | special (.mvi command) => some command.immediate
  | special (.jump command) => some command.target.toNat
  | _ => none

end Command

/-! ## Readers -/

theorem bounded_of_inside {mnemonic : String} {least most value : Int} (inside : least ≤ value ∧ value ≤ most) :
    bounded mnemonic least most value = .ok value :=
  bounded_eq_ok.mpr ⟨inside, rfl⟩

theorem bounded_of_outside {mnemonic : String} {least most value : Int} (outside : ¬ (least ≤ value ∧ value ≤ most)) :
    bounded mnemonic least most value = .error (.malformed mnemonic (.outOfRange value least most)) := by
  rw [bounded, if_pos]
  omega

section

variable {scope : Scope} {operand : String} {number : Int}

theorem D1Bus.parse_of_value (unnamed : (ofName? operand : Option D1Source) = none)
    (plain : ¬ isRegisterName operand) (resolved : scope.constantValue operand = .ok number)
    (destination : D1Destination) :
    parse scope ["MOV", operand, name destination] =
      (bounded "MOV" 0 255 number).map fun value => movImm (UInt8.ofNat value.toNat) destination := by
  rw [parse, operand_eq_ok.mpr rfl, ok_bind, parseSource, unnamed]
  dsimp only
  rw [if_neg plain, resolved, ok_bind]
  rfl

theorem Dma.parseCount_of_value (unnamed : (ofName? operand : Option DmaCounter) = none)
    (resolved : scope.constantValue operand = .ok number) (mnemonic : String) :
    parseCount scope mnemonic operand =
      (bounded mnemonic 0 255 number).map fun value => .immediate (UInt8.ofNat value.toNat) := by
  rw [parseCount, unnamed]
  dsimp only
  rw [resolved, ok_bind]
  rfl

theorem Dma.parse_of_count {mnemonic origin goal : String} {hold : Bool} {direction : DmaDirection}
    {pointer : DmaPointer} (held : parseHold mnemonic = .ok hold)
    (ends : parseEnds mnemonic origin goal = .ok (direction, name pointer))
    (inward : ¬ (pointer = .prg ∧ direction = .ramToD0)) :
    parse scope [mnemonic, origin, goal, operand] =
      (parseCount scope mnemonic operand).map fun count => ⟨hold, plainAddMode, direction, pointer, count⟩ := by
  rw [parse, held, ok_bind, ends, ok_bind]
  dsimp only
  rw [operand_eq_ok.mpr rfl, ok_bind, if_neg inward]
  rfl

theorem Mvi.parseOperands_of_value (destination : MviDestination) (condition : Option Condition)
    (resolved : (if destination = .pc then scope.labelValue operand else scope.constantValue operand) = .ok number) :
    parseOperands scope operand (name destination) (condition.map name) =
      (bounded "MVI" (NumberPlace.load destination condition).least (NumberPlace.load destination condition).most
        number).map fun immediate => ⟨destination, immediate, condition⟩ := by
  rw [parseOperands, operand_eq_ok.mpr rfl, ok_bind, parseCondition_eq_ok.mpr rfl, ok_bind]
  have ends : (NumberPlace.load destination condition).least = -(if condition.isSome then 0x40000 else 0x1000000) ∧
      (NumberPlace.load destination condition).most = (if condition.isSome then 0x40000 else 0x1000000) - 1 := by
    cases condition <;> exact ⟨rfl, rfl⟩
  rw [ends.1, ends.2]
  split at resolved
  · rw [if_pos (by assumption), resolved, ok_bind]
    rfl
  · rw [if_neg (by assumption), resolved, ok_bind]
    rfl

theorem Jump.parseOperands_of_value (condition : Option Condition) (resolved : scope.labelValue operand = .ok number) :
    parseOperands scope (condition.map name) operand =
      (bounded "JMP" 0 127 number).map fun target => ⟨condition, UInt8.ofNat target.toNat⟩ := by
  rw [parseOperands, parseCondition_eq_ok.mpr rfl, ok_bind, resolved, ok_bind]
  rfl

end

namespace NumberPlace

variable {place : NumberPlace} {scope : Scope} {operand : String} {number : Int}

theorem parse_phrase (unreserved : ¬ place.Reserved operand) (resolved : place.value scope operand = .ok number) :
    place.parse scope (place.phrase operand) =
      (bounded place.mnemonic place.least place.most number).map place.command := by
  cases place with
  | move destination =>
    obtain ⟨unnamed, plain⟩ := not_or.mp unreserved
    rw [parse, phrase, D1Bus.parse_of_value (Option.not_isSome_iff_eq_none.mp unnamed) plain resolved, map_map]
    rfl
  | transfer hold direction pointer inward =>
    have counted := Dma.parseCount_of_value (Option.not_isSome_iff_eq_none.mp unreserved) resolved
    have held : Dma.parseHold (if hold then "DMAH" else "DMA") = .ok hold := Dma.parseHold_eq_ok.mpr rfl
    cases direction with
    | d0ToRam =>
      have ends (mnemonic : String) : Dma.parseEnds mnemonic "D0" (name pointer) = .ok (.d0ToRam, name pointer) := rfl
      rw [parse, phrase, Dma.parse_of_count held (ends _) inward, counted, map_map, map_map]
      rfl
    | ramToD0 =>
      have ends (mnemonic : String) : Dma.parseEnds mnemonic (name pointer) "D0" = .ok (.ramToD0, name pointer) :=
        Dma.parseEnds_eq_ok.mpr ⟨Dma.name_pointer_ne pointer, rfl, rfl⟩
      rw [parse, phrase, Dma.parse_of_count held (ends _) inward, counted, map_map, map_map]
      rfl
  | load destination condition =>
    have read := Mvi.parseOperands_of_value destination condition resolved
    have routed : Mvi.parse scope ((load destination condition).phrase operand) =
        Mvi.parseOperands scope operand (name destination) (condition.map name) := by
      cases condition <;> rfl
    rw [parse, routed, read, map_map]
    rfl
  | jump condition =>
    have read := Jump.parseOperands_of_value condition resolved
    have routed : Jump.parse scope ((jump condition).phrase operand) =
        Jump.parseOperands scope (condition.map name) operand := by
      cases condition <;> rfl
    rw [parse, routed, read, map_map]
    rfl

theorem number?_command (fits : place.least ≤ number ∧ number ≤ place.most) :
    (place.command number).number? = some number := by
  cases place with
  | move destination => exact congrArg some (toNat_ofNat_toNat fits)
  | transfer hold direction pointer inward => exact congrArg some (toNat_ofNat_toNat fits)
  | load destination condition => rfl
  | jump condition =>
    dsimp only [least, most] at fits
    exact congrArg some (toNat_ofNat_toNat ⟨fits.1, by omega⟩)

theorem decode_encode_command (fits : place.least ≤ number ∧ number ≤ place.most) :
    place.decode (place.command number).encode = .ok (place.command number) := by
  cases place with
  | move destination => exact map_eq_ok.mpr ⟨_, D1Bus.decode_encode _, rfl⟩
  | transfer hold direction pointer inward => exact map_eq_ok.mpr ⟨_, Dma.decode_encode ⟨rfl, inward⟩, rfl⟩
  | load destination condition =>
    have legal : Mvi.Legal ⟨destination, number, condition⟩ := by
      cases condition <;> dsimp only [Mvi.Legal, least, most] at fits ⊢ <;> omega
    exact map_eq_ok.mpr ⟨_, Mvi.decode_encode legal, rfl⟩
  | jump condition =>
    dsimp only [least, most] at fits
    have kept : ((UInt8.ofNat number.toNat).toNat : Int) = number := toNat_ofNat_toNat ⟨fits.1, by omega⟩
    have legal : Jump.Legal ⟨condition, UInt8.ofNat number.toNat⟩ := by
      rw [Jump.Legal, UInt8.le_iff_toNat_le]
      change (UInt8.ofNat number.toNat).toNat ≤ 127
      omega
    exact map_eq_ok.mpr ⟨_, Jump.decode_encode legal, rfl⟩

/-- A number is taken exactly when it lies in the range of its place, and then the bits of the command hold that number.
Any other is refused, so none is ever cut to its field. -/
theorem parse_number (unreserved : ¬ place.Reserved operand) (resolved : place.value scope operand = .ok number) :
    ((∃ command, place.parse scope (place.phrase operand) = .ok command) ↔
        place.least ≤ number ∧ number ≤ place.most) ∧
      (∀ command, place.parse scope (place.phrase operand) = .ok command →
        place.decode command.encode = .ok command ∧ command.number? = some number) ∧
      (¬ (place.least ≤ number ∧ number ≤ place.most) → place.parse scope (place.phrase operand) =
        .error (.malformed place.mnemonic (.outOfRange number place.least place.most))) := by
  have read := parse_phrase unreserved resolved
  by_cases inside : place.least ≤ number ∧ number ≤ place.most
  · have made : place.parse scope (place.phrase operand) = .ok (place.command number) := by
      rw [read, bounded_of_inside inside]
      rfl
    refine ⟨⟨fun _ => inside, fun _ => ⟨_, made⟩⟩, ?_, fun outside => absurd inside outside⟩
    intro command parsed
    rw [made, Except.ok.injEq] at parsed
    subst parsed
    exact ⟨decode_encode_command inside, number?_command inside⟩
  · have failed : place.parse scope (place.phrase operand) =
        .error (.malformed place.mnemonic (.outOfRange number place.least place.most)) := by
      rw [read, bounded_of_outside inside]
      rfl
    rw [failed]
    exact ⟨⟨nofun, fun inside' => absurd inside' inside⟩, nofun, fun _ => rfl⟩

theorem parse_number_far_label :
    ∃ scope : Scope, scope.labelValue "FAR" = .ok 200 ∧
      (jump none).parse scope ["JMP", "FAR"] = .error (.malformed "JMP" (.outOfRange 200 0 127)) ∧
      ∃ command, (load .pc none).parse scope ["MVI", "FAR", "PC"] = .ok command ∧
        (load .pc none).decode command.encode = .ok command ∧ command.number? = some 200 := by
  let scope : Scope := { labels := SymbolTable.empty.insert "FAR" 200 }
  have free : ¬ (jump none).Reserved "FAR" := not_false
  have free' : ¬ (load .pc none).Reserved "FAR" := not_false
  have far : (jump none).value scope "FAR" = .ok 200 := by rfl
  have far' : (load .pc none).value scope "FAR" = .ok 200 := by rfl
  have refused := (parse_number free far).2.2 (by decide)
  have taken := parse_number free' far'
  obtain ⟨command, read⟩ := taken.1.mpr (by decide)
  exact ⟨scope, far, refused, command, read, taken.2.1 command read⟩

end NumberPlace

end DspAsm
