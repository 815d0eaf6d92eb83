/-
Powers on the wire.

The bounds of numbers on the wire are powers.  Everywhere in the library they
are powers of the core language, also where more general ones are in scope.
-/
namespace ProtoPhp.Wire

@[default_instance 20000]
instance (priority := 2000) corePow {α : Type} [NatPow α] : Pow α Nat := instPowNat

end ProtoPhp.Wire
