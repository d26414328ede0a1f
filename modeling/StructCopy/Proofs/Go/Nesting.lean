/-
  Proofs/Go/Nesting: how deep constructs are read inside one another.

  A round of reading gets readers for what is behind its start and for nothing else.
  Rounds in rounds therefore come to an end after as many as there are places left,
  whatever would be done then.
-/
import StructCopy.Go.Reader

set_option autoImplicit false

namespace StructCopy.Go

/-! ## Constructs -/

/-- A way to read each construct. -/
abbrev Readers : Type :=
  (c : Construct) → (ts : List Located) → Reading c.Value ts

/-- The readers with at most `depth` rounds inside one another; `giveUp` reads what is deeper. -/
def readersWithin (giveUp : Readers) : (depth : Nat) → Readers
  | 0 => giveUp
  | depth + 1 => fun c ts => round c ts fun c us _ => readersWithin giveUp depth c us

/-- As many rounds as there are places, the end among them, are enough. -/
theorem readersWithin_eq (giveUp : Readers) {depth : Nat} {ts : List Located}
    (hdepth : ts.length < depth) (c : Construct) :
    readersWithin giveUp depth c ts = readers c ts := by
  induction depth generalizing ts c with
  | zero => exact absurd hdepth (Nat.not_lt_zero _)
  | succ depth ih =>
    rw [readers_eq]
    refine congrArg (round c ts) ?_
    funext c us hus
    exact ih (Nat.lt_of_lt_of_le hus (Nat.le_of_lt_succ hdepth)) c

/-! ## Files -/

/-- The type declarations of a file, with at most `depth` rounds inside one another; `giveUp` and
`stop` read what is deeper. -/
def typeDeclsWithin (giveUp : Readers) (stop : DeclsReader) : (depth : Nat) → DeclsReader
  | 0 => stop
  | depth + 1 => fun ts =>
    typeDeclsRound ts (fun c us _ => readersWithin giveUp depth c us)
      fun us _ => typeDeclsWithin giveUp stop depth us

/-- Reads the tokens of a file with at most `depth` rounds inside one another. -/
def SourceFile.ofTokensWithin (giveUp : Readers) (stop : DeclsReader) (depth : Nat)
    (name : String) (ts : List Located) : Except Stuck SourceFile :=
  ofTokensBy (typeDeclsWithin giveUp stop depth) name ts

theorem typeDeclsWithin_eq (giveUp : Readers) (stop : DeclsReader) {depth : Nat}
    {ts : List Located} (hdepth : ts.length < depth) :
    typeDeclsWithin giveUp stop depth ts = typeDecls ts := by
  induction depth generalizing ts with
  | zero => exact absurd hdepth (Nat.not_lt_zero _)
  | succ depth ih =>
    have hbelow : ∀ us : List Located, us.length < ts.length → us.length < depth := fun us hus =>
      Nat.lt_of_lt_of_le hus (Nat.le_of_lt_succ hdepth)
    rw [typeDecls]
    refine congr (congrArg (typeDeclsRound ts) ?_) ?_
    · funext c us hus
      exact readersWithin_eq giveUp (hbelow us hus) c
    · funext us hus
      exact ih (hbelow us hus)

/-- Two ways to go on are equal if they are for everything that can be read. -/
theorem bind_rest_congr {α β : Type} {P : List Located → Prop}
    {x : Except Stuck (α × { rest : List Located // P rest })}
    {f g : α × { rest : List Located // P rest } → Except Stuck β}
    (h : ∀ found rest hrest, f (found, ⟨rest, hrest⟩) = g (found, ⟨rest, hrest⟩)) :
    x >>= f = x >>= g :=
  bind_congr fun found => h found.1 found.2.val found.2.property

/-- A file is read with at most as many rounds inside one another as it has places. -/
theorem SourceFile.ofTokensWithin_eq (giveUp : Readers) (stop : DeclsReader) {depth : Nat}
    (name : String) {ts : List Located} (hdepth : ts.length < depth) :
    SourceFile.ofTokensWithin giveUp stop depth name ts = SourceFile.ofTokens name ts := by
  have hfront : (skipSemicolons ts).length ≤ ts.length := (List.dropWhile_suffix _).length_le
  rw [SourceFile.ofTokensWithin, SourceFile.ofTokens, ofTokensBy, ofTokensBy]
  refine bind_rest_congr fun _ rest hrest => ?_
  dsimp only
  refine bind_rest_congr fun package rest hrest => ?_
  dsimp only
  refine bind_congr ?_
  rintro ⟨rest, hrest⟩
  dsimp only
  refine bind_rest_congr fun imports rest hrest => ?_
  dsimp only
  rw [typeDeclsWithin_eq giveUp stop (by grind)]

end StructCopy.Go
