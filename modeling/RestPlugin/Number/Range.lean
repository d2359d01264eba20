/-!
# Ranges of integers

The bounds of the integers that fit into 64 bits, with and without a sign.
-/

namespace RestPlugin.Number

/-- The least signed integer. -/
def leastSigned : Int := -9223372036854775808

/-- The greatest signed integer. -/
def greatestSigned : Int := 9223372036854775807

/-- The greatest unsigned integer. -/
def greatestUnsigned : Int := 18446744073709551615

end RestPlugin.Number
