/-!
# Stream options

Named values that go along with every request to open a stream.  They are kept in
the order of their names, one value a name, so that the same options are always
listed the same way.
-/

namespace MasterPackage.Transport

/-- Options in the order of their names, each name once. -/
structure Options where
  pairs : List (String × String)
  deriving DecidableEq, Repr

namespace Options

/-- No options. -/
def empty : Options := ⟨[]⟩

/-- Puts a value at the place of its name. -/
def insertPair (name value : String) : List (String × String) → List (String × String)
  | [] => [(name, value)]
  | (n, v) :: rest =>
    if name < n then (name, value) :: (n, v) :: rest
    else if name = n then (name, value) :: rest
    else (n, v) :: insertPair name value rest

/-- Sets an option. -/
def insert (o : Options) (name value : String) : Options :=
  ⟨insertPair name value o.pairs⟩

/-- The value of an option. -/
def get? (o : Options) (name : String) : Option String := o.pairs.lookup name

/-- The number of options. -/
def size (o : Options) : Nat := o.pairs.length

/-- Whether there is no option. -/
def isEmpty (o : Options) : Bool := o.pairs.isEmpty

/-- Options set one after the other; of two values for one name the later stays. -/
def ofList (pairs : List (String × String)) : Options :=
  pairs.foldl (fun o p => o.insert p.1 p.2) empty

theorem lookup_insertPair_self (name value : String) (pairs : List (String × String)) :
    (insertPair name value pairs).lookup name = some value := by
  induction pairs with
  | nil => simp [insertPair]
  | cons p rest ih =>
    obtain ⟨n, v⟩ := p
    simp only [insertPair]
    split
    · simp
    · split
      · simp
      · next h =>
        have hn : (name == n) = false := by simpa using h
        simp [List.lookup_cons, hn, ih]

theorem get?_insert_self (o : Options) (name value : String) :
    (o.insert name value).get? name = some value :=
  lookup_insertPair_self name value o.pairs

end Options

end MasterPackage.Transport
