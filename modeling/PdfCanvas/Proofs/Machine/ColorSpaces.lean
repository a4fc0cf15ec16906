import PdfCanvas.Proofs.Machine.Steps

/-!
# Colour spaces on a machine

Colour spaces are read from objects by looking at what is there. The only steps that could have no result
move a number into the range of a byte, between bounds that are in order.
-/

namespace PdfCanvas.Machine

def clampByte (low high : UInt8) (value : Int) : Run UInt8 := do
  return (← clamp low.toNat high.toNat value).toNat.toUInt8

/-- The number of components that the dictionary of a profile gives, from one to four. -/
def profileCount (entries : Dictionary) : Run UInt8 :=
  match (entries.get? "N").bind Object.integer? with
  | none => refuse (.format .profileWithoutCount)
  | some components => clampByte 1 4 components

mutual

def readSpace : Object → Run ColorSpace
  | .name name => lift (ColorSpace.ofName name)
  | .array items => readItems items
  | .reference target => refuse (.format (.unresolvedSpace target))
  | other => refuse (.format (.spaceType other.typeName))
  termination_by structural object => object

/-- Reads the items of an array: a family and its parameters. -/
def readItems : List Object → Run ColorSpace
  | .name family :: parameters =>
    if parameters.isEmpty && ColorSpace.soleNames.contains family then lift (ColorSpace.ofName family)
    else
      match ColorSpace.Family.ofName? family with
      | none => refuse (.format (.unknownSpace family))
      | some .gray => .ok .gray
      | some .rgb => .ok .rgb
      | some .indexed => readTable family parameters
      | some .icc =>
        match parameters with
        | [] => refuse (.format (.missingItem family 1))
        | profile :: _ => readProfile profile
      | some .separation => readColorant family parameters
      | some .deviceN => readColorants family parameters
      | some .pattern =>
        match parameters with
        | [] => refuse (.format (.missingItem family 1))
        | underlying :: _ => return .pattern (some (← readSpace underlying))
  | _ => refuse (.format .noFamily)
  termination_by structural items => items

/-- Reads base, greatest index and table. -/
def readTable (family : String) : List Object → Run ColorSpace
  | [] => refuse (.format (.missingItem family 1))
  | base :: rest => do
    let base ← readSpace base
    match rest with
    | [] => refuse (.format (.missingItem family 2))
    | limit :: rest =>
      match limit.integer?, rest with
      | none, _ => refuse (.format .paletteLimitType)
      | some _, [] => refuse (.format (.missingItem family 3))
      | some limit, table :: _ =>
        return .indexed base (← clampByte 0 255 limit) (← lift (ColorSpace.tableBytes table))
  termination_by structural items => items

/-- Reads a profile: the dictionary of its stream tells the components and the alternate. -/
def readProfile : Object → Run ColorSpace
  | .stream entries _ => do return .icc (← profileCount entries) (← readAlternate entries) none
  | .dictionary entries => do return .icc (← profileCount entries) (← readAlternate entries) none
  | .reference target => refuse (.format (.unresolvedProfile target))
  | other => refuse (.format (.profileType other.typeName))
  termination_by structural object => object

/-- Reads the entry that gives an alternate space, if there is one. -/
def readAlternate : List (String × Object) → Run (Option ColorSpace)
  | [] => .ok none
  | entry :: rest => do
    match ← readAlternateEntry entry with
    | some alternate => return some alternate
    | none => readAlternate rest
  termination_by structural entries => entries

def readAlternateEntry : String × Object → Run (Option ColorSpace)
  | (key, value) => if key = "Alternate" then some <$> readSpace value else .ok none
  termination_by structural entry => entry

/-- Reads a colorant, its alternate space and its tint transform. -/
def readColorant (family : String) : List Object → Run ColorSpace
  | [] => refuse (.format (.missingItem family 1))
  | colorant :: rest =>
    match colorant.name?, rest with
    | none, _ => refuse (.format .colorantType)
    | some _, [] => refuse (.format (.missingItem family 2))
    | some colorant, alternate :: rest =>
      return .separation colorant (← readSpace alternate) (rest.head?.getD .null)
  termination_by structural items => items

def readColorants (family : String) : List Object → Run ColorSpace
  | [] => refuse (.format (.missingItem family 1))
  | colorants :: rest =>
    match colorants.array?, rest with
    | none, _ => refuse (.format .colorantsType)
    | some items, rest =>
      if (items.filterMap Object.name?).isEmpty then refuse (.format .noColorants)
      else
        match rest with
        | [] => refuse (.format (.missingItem family 2))
        | alternate :: rest =>
          return .deviceN (items.filterMap Object.name?) (← readSpace alternate)
            (rest.head?.getD .null)
  termination_by structural items => items

end

/-! ## Reading does not panic -/

theorem clampByte_safe {low high : UInt8} (order : low ≤ high) (value : Int) :
    Safe (clampByte low high value) (.ok (ColorSpace.clampByte low high value)) := by
  have bounded := UInt8.le_iff_toNat_le.mp order
  have same : (max (low.toNat : Int) (min high.toNat value)).toNat =
      max low.toNat (min high.toNat value.toNat) := by omega
  apply Safe.of_ok
  rw [clampByte, clamp_ok (by omega), ok_bind, same]
  rfl

theorem profileCount_safe (entries : Dictionary) :
    Safe (profileCount entries) (ColorSpace.profileCount entries) := by
  unfold profileCount ColorSpace.profileCount
  cases (entries.get? "N").bind Object.integer? with
  | none => exact .refuse rfl
  | some components => exact clampByte_safe (by decide) components

theorem ofName_safe (name : String) : Safe (lift (ColorSpace.ofName name)) (ColorSpace.ofName name) := by
  apply Safe.lift
  unfold ColorSpace.ofName
  grind [NeverAborts]

theorem tableBytes_safe (table : Object) :
    Safe (lift (ColorSpace.tableBytes table)) (ColorSpace.tableBytes table) := by
  apply Safe.lift
  cases table with
  | string bytes => exact neverAborts_ok bytes
  | stream _ data => exact neverAborts_ok data
  | _ => exact neverAborts_error rfl

mutual

/-- Objects are read as colour spaces without a panic. By induction on the object. -/
theorem readSpace_safe : (object : Object) → Safe (readSpace object) (ColorSpace.ofObject object)
  | .name name => ofName_safe name
  | .array items => readItems_safe items
  | .reference _ => .refuse rfl
  | .null => .refuse rfl
  | .boolean _ => .refuse rfl
  | .integer _ => .refuse rfl
  | .real _ => .refuse rfl
  | .string _ => .refuse rfl
  | .dictionary _ => .refuse rfl
  | .stream .. => .refuse rfl
  termination_by structural object => object

theorem readItems_safe : (items : List Object) → Safe (readItems items) (ColorSpace.ofItems items)
  | [] => .refuse rfl
  | .name family :: parameters => by
    rw [readItems.eq_def, ColorSpace.ofItems.eq_def]
    dsimp only
    split
    · exact ofName_safe family
    · cases ColorSpace.Family.ofName? family with
      | none => exact .refuse rfl
      | some kind =>
        cases kind with
        | gray => exact .ok ColorSpace.gray
        | rgb => exact .ok ColorSpace.rgb
        | indexed => exact readTable_safe family parameters
        | icc =>
          match parameters with
          | [] => exact .refuse rfl
          | profile :: _ => exact readProfile_safe profile
        | separation => exact readColorant_safe family parameters
        | deviceN => exact readColorants_safe family parameters
        | pattern =>
          match parameters with
          | [] => exact .refuse rfl
          | underlying :: _ => exact (readSpace_safe underlying).bind fun _ _ => .ok _
  | .null :: _ => .refuse rfl
  | .boolean _ :: _ => .refuse rfl
  | .integer _ :: _ => .refuse rfl
  | .real _ :: _ => .refuse rfl
  | .string _ :: _ => .refuse rfl
  | .array _ :: _ => .refuse rfl
  | .dictionary _ :: _ => .refuse rfl
  | .stream .. :: _ => .refuse rfl
  | .reference _ :: _ => .refuse rfl
  termination_by structural items => items

theorem readTable_safe (family : String) : (items : List Object) →
    Safe (readTable family items) (ColorSpace.ofTable family items)
  | [] => .refuse rfl
  | base :: rest => by
    refine (readSpace_safe base).bind fun base _ => ?_
    cases rest with
    | nil => exact .refuse rfl
    | cons limit rest =>
      dsimp only
      cases limit.integer? with
      | none => exact .refuse rfl
      | some limit =>
        cases rest with
        | nil => exact .refuse rfl
        | cons table _ =>
          refine Safe.after (clampByte_safe (by decide) limit) ?_
          exact (tableBytes_safe table).bind fun _ _ => .ok _
  termination_by structural items => items

theorem readProfile_safe : (object : Object) → Safe (readProfile object) (ColorSpace.ofProfile object)
  | .stream entries _ =>
    (profileCount_safe entries).bind fun _ _ => (readAlternate_safe entries).bind fun _ _ => .ok _
  | .dictionary entries =>
    (profileCount_safe entries).bind fun _ _ => (readAlternate_safe entries).bind fun _ _ => .ok _
  | .reference _ => .refuse rfl
  | .null => .refuse rfl
  | .boolean _ => .refuse rfl
  | .integer _ => .refuse rfl
  | .real _ => .refuse rfl
  | .string _ => .refuse rfl
  | .name _ => .refuse rfl
  | .array _ => .refuse rfl
  termination_by structural object => object

theorem readAlternate_safe : (entries : List (String × Object)) →
    Safe (readAlternate entries) (ColorSpace.ofAlternate entries)
  | [] => .ok none
  | entry :: rest => by
    refine (readAlternateEntry_safe entry).bind fun alternate _ => ?_
    cases alternate with
    | some alternate => exact .ok (some alternate)
    | none => exact readAlternate_safe rest
  termination_by structural entries => entries

theorem readAlternateEntry_safe : (entry : String × Object) →
    Safe (readAlternateEntry entry) (ColorSpace.ofAlternateEntry entry)
  | (key, value) => by
    rw [readAlternateEntry, ColorSpace.ofAlternateEntry]
    split
    · exact (readSpace_safe value).map some
    · exact .ok none
  termination_by structural entry => entry

theorem readColorant_safe (family : String) : (items : List Object) →
    Safe (readColorant family items) (ColorSpace.ofColorant family items)
  | [] => .refuse rfl
  | colorant :: rest => by
    rw [readColorant.eq_def, ColorSpace.ofColorant.eq_def]
    dsimp only
    cases colorant.name? with
    | none => exact .refuse rfl
    | some colorant =>
      match rest with
      | [] => exact .refuse rfl
      | alternate :: rest => exact (readSpace_safe alternate).bind fun _ _ => .ok _
  termination_by structural items => items

theorem readColorants_safe (family : String) : (items : List Object) →
    Safe (readColorants family items) (ColorSpace.ofColorants family items)
  | [] => .refuse rfl
  | colorants :: rest => by
    rw [readColorants.eq_def, ColorSpace.ofColorants.eq_def]
    dsimp only
    cases colorants.array? with
    | none => exact .refuse rfl
    | some items =>
      dsimp only
      split
      · exact .refuse rfl
      · match rest with
        | [] => exact .refuse rfl
        | alternate :: rest => exact (readSpace_safe alternate).bind fun _ _ => .ok _
  termination_by structural items => items

end

end PdfCanvas.Machine
