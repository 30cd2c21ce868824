/-
  Mandate.Command.Arguments
  ────────────────────────────────
  **TAKING ARGUMENTS.**

  Marked arguments are taken from left to right: an option with its value, the
  operand as soon as a plain argument comes, and whatever nothing takes is kept
  as unrecognized.  A help option ends everything at once; what is missing is
  found at the end.
-/
import Mandate.Command.Grammar

namespace Mandate.Command

/-- Why no arguments are taken. -/
inductive Ended where
  | fault (f : ArgumentFault)
  | help
  deriving DecidableEq, Repr

/-- Arguments by what they are. -/
structure Taken where
  given : List Given
  /-- The operand: one argument, or a subcommand with what follows it. -/
  operand : List Text
  unrecognized : List Text
  deriving DecidableEq, Repr

namespace Taken

/-- No arguments. -/
def none : Taken := ⟨[], [], []⟩

/-- The last value of an option. -/
def value? (t : Taken) (name : String) : Option Text :=
  (t.given.reverse.find? fun g => g.option.names.contains name).bind (·.value)

/-- All values of an option. -/
def values (t : Taken) (name : String) : List Text :=
  (t.given.filter fun g => g.option.names.contains name).filterMap (·.value)

/-- An option is there. -/
def has (t : Taken) (name : String) : Bool :=
  t.given.any fun g => g.option.names.contains name

end Taken

/-- The operand at the head of the arguments.  A `--` beside a single argument
goes with it. -/
def takeOperand : Operand → Marked → Option (List Text × Marked)
  | .single _, (a, .plain) :: (_, .divider) :: rest => some ([a], rest)
  | .single _, (a, .plain) :: rest => some ([a], rest)
  | .single _, (_, .divider) :: (a, _) :: rest => some ([a], rest)
  | .subcommand .., (a, .plain) :: rest => some (a :: rest.map (·.1), [])
  | .subcommand .., (d, .divider) :: a :: rest => some (d :: a.1 :: rest.map (·.1), [])
  | _, _ => none

/-- A subcommand is one of the choices. -/
def checkChoice : Operand → List Text → Except ArgumentFault Unit
  | .subcommand name choices, value :: _ =>
      if choices.any (.plain · == value) then .ok ()
      else .error (.unknownChoice name value choices)
  | _, _ => .ok ()

theorem takeOperand_length {o : Operand} {m rest : Marked} {found : List Text}
    (h : takeOperand o m = some (found, rest)) : rest.length < m.length := by
  unfold takeOperand at h
  split at h <;> simp only [Option.some.injEq, Prod.mk.injEq, reduceCtorEq] at h
  all_goals
    obtain ⟨_, rfl⟩ := h
    simp only [List.length_cons, List.length_nil]
    omega

/-- Take all arguments.  `wanted` is the operand, as long as it is missing. -/
def take (g : Grammar) (wanted : Operand) (arguments : Marked) : Except Ended Taken :=
  match arguments with
  | [] => .ok .none
  | (a, .unknown) :: more =>
      (take g wanted more).map fun t => { t with unrecognized := a :: t.unrecognized }
  | (_, .option o name attached) :: more =>
      match _h : takeOption g o name attached more with
      | .error f => .error (.fault f)
      | .ok (options, rest) =>
          if options.given.any fun e => e.option.kind == .help then .error .help
          else
            (take g wanted rest).map fun t =>
              { t with given := options.given ++ t.given
                       unrecognized := options.unrecognized ++ t.unrecognized }
  | (a, k) :: more =>
      match _h : takeOperand wanted ((a, k) :: more) with
      | none => (take g wanted more).map fun t => { t with unrecognized := a :: t.unrecognized }
      | some (found, rest) =>
          match checkChoice wanted found with
          | .error f => .error (.fault f)
          | .ok () => (take g .none rest).map fun t => { t with operand := found }
termination_by arguments.length
decreasing_by
  · simp
  · have := takeOption_length _h
    simp only [List.length_cons]
    omega
  · simp
  · exact takeOperand_length _h

/-- The operand that is missing, by its name. -/
def Operand.missing (o : Operand) (t : Taken) : List String :=
  match o with
  | .none => []
  | .single name | .subcommand name _ => if t.operand.isEmpty then [name] else []

/-- What is required and not there. -/
def Grammar.missing (g : Grammar) (t : Taken) : List String :=
  ((g.options.filter fun o => o.required && !t.given.any fun e => e.option == o).map (·.label))
    ++ g.operand.missing t

/-- The arguments of a command by what they are. -/
def Grammar.parse (g : Grammar) (arguments : List Text) : Except Ended Taken :=
  match mark g arguments with
  | .error f => .error (.fault f)
  | .ok marked =>
      match take g g.operand marked with
      | .error e => .error e
      | .ok t =>
          if (g.missing t).isEmpty then .ok t else .error (.fault (.missing (g.missing t)))

end Mandate.Command
