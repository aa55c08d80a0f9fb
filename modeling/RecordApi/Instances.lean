/-!
# Instances

Powers of whole numbers and the search in a list are those of the core library. They stay so where
other instances are in scope as well, so that a definition means the same whatever else is
imported.
-/

attribute [instance (high), default_instance (high)] instPowNat

attribute [instance (high)] List.instDecidableIsInfixOfDecidableEq
