import UnitCheck.Registry.Configuration

/-!
  The registry of the International System: its base dimensions, common composed ones, and units
  in everyday use.
-/

namespace UnitCheck

namespace Configuration

/-- The base dimensions of the International System. -/
def internationalBase : List FundamentalEntry :=
  [⟨"length", "m"⟩,
    ⟨"mass", "kg"⟩,
    ⟨"time", "s"⟩,
    ⟨"temperature", "K"⟩,
    ⟨"current", "A"⟩,
    ⟨"amount", "mol"⟩,
    ⟨"luminosity", "cd"⟩]

/-- A composed dimension whose default unit is coherent with the base units. -/
def coherent (name unit : String) (reference : Factor) : ComposedEntry Float :=
  ⟨name, unit, reference, .scale 1.0⟩

/-- The composed dimensions of the International System. -/
def internationalComposed : List (ComposedEntry Float) :=
  let unit := Factor.ofSymbol
  [coherent "area" "m2" (unit "m" * unit "m"),
    coherent "volume" "m3" (unit "m" * unit "m" * unit "m"),
    coherent "velocity" "mps" (unit "m" / unit "s"),
    coherent "acceleration" "mps2" (unit "m" / (unit "s" * unit "s")),
    coherent "frequency" "Hz" (.one / unit "s"),
    coherent "force" "N" (unit "kg" * unit "m" / (unit "s" * unit "s")),
    coherent "pressure" "Pa" (unit "kg" / (unit "m" * unit "s" * unit "s")),
    coherent "energy" "J" (unit "kg" * unit "m" * unit "m" / (unit "s" * unit "s")),
    coherent "power" "W" (unit "kg" * unit "m" * unit "m" / (unit "s" * unit "s" * unit "s")),
    coherent "charge" "C" (unit "A" * unit "s")]

/-- Units of length, mass, time, temperature, current and amount. -/
def internationalBaseMultiples : List (MultipleEntry Float) :=
  [⟨"km", "m", .scale 1000.0⟩,
    ⟨"cm", "m", .scale 0.01⟩,
    ⟨"mm", "m", .scale 0.001⟩,
    ⟨"um", "m", .scale 1e-06⟩,
    ⟨"nm", "m", .scale 1e-09⟩,
    ⟨"pm", "m", .scale 1e-12⟩,
    ⟨"fm", "m", .scale 1e-15⟩,
    ⟨"in", "m", .scale 0.0254⟩,
    ⟨"ft", "m", .scale 0.3048⟩,
    ⟨"mi", "m", .scale 1609.344⟩,
    ⟨"g", "kg", .scale 0.001⟩,
    ⟨"mg", "kg", .scale 1e-06⟩,
    ⟨"t", "kg", .scale 1000.0⟩,
    ⟨"lb", "kg", .scale 0.45359237⟩,
    ⟨"ms", "s", .scale 0.001⟩,
    ⟨"min", "s", .scale 60.0⟩,
    ⟨"h", "s", .scale 3600.0⟩,
    ⟨"d", "s", .scale 86400.0⟩,
    ⟨"degC", "K", ⟨1.0, 273.15⟩⟩,
    ⟨"degF", "K", ⟨0.5555555555555556, 255.37222222222223⟩⟩,
    ⟨"mA", "A", .scale 0.001⟩,
    ⟨"mmol", "mol", .scale 0.001⟩]

/-- Units of the composed dimensions. -/
def internationalComposedMultiples : List (MultipleEntry Float) :=
  [⟨"cm2", "m2", .scale 0.0001⟩,
    ⟨"km2", "m2", .scale 1000000.0⟩,
    ⟨"ha", "m2", .scale 10000.0⟩,
    ⟨"L", "m3", .scale 0.001⟩,
    ⟨"mL", "m3", .scale 1e-06⟩,
    ⟨"kmh", "mps", .scale 0.2777777777777778⟩,
    ⟨"kHz", "Hz", .scale 1000.0⟩,
    ⟨"MHz", "Hz", .scale 1000000.0⟩,
    ⟨"kN", "N", .scale 1000.0⟩,
    ⟨"kPa", "Pa", .scale 1000.0⟩,
    ⟨"bar", "Pa", .scale 100000.0⟩,
    ⟨"atm", "Pa", .scale 101325.0⟩,
    ⟨"psi", "Pa", .scale 6894.757293168⟩,
    ⟨"kJ", "J", .scale 1000.0⟩,
    ⟨"cal", "J", .scale 4.184⟩,
    ⟨"kcal", "J", .scale 4184.0⟩,
    ⟨"kWh", "J", .scale 3600000.0⟩,
    ⟨"kW", "W", .scale 1000.0⟩,
    ⟨"mAh", "C", .scale 3.6⟩]

/-- The International System. -/
def international : Configuration Float :=
  ⟨internationalBase, internationalComposed,
    internationalBaseMultiples ++ internationalComposedMultiples⟩

end Configuration

/-- The registry of the International System. -/
def Registry.international : Registry Float :=
  (Registry.empty.apply Configuration.international).1

end UnitCheck
