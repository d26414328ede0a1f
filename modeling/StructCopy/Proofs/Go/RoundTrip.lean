/-
  Proofs/Go/RoundTrip: a type that has been printed reads back as itself.

  The text of a well-formed type, put into a file as the one alias declaration, is
  taken apart, read to its end, and gives the type it was printed from.  Only the
  lines of struct members may differ, because printing puts everything on one line.
-/
import StructCopy.Proofs.Go.Declaration
import StructCopy.Proofs.Go.Spelling

set_option autoImplicit false

namespace StructCopy.Go

theorem pieces_lineBreak : pieces ['\n'] = ([.lineBreak], none) := by
  have hnil : pieces [] = ([], none) := by rw [pieces]
  exact pieces_step rfl hnil

/-- Behind the last token of a line there is at most the semicolon that ends the statement. -/
theorem atEnd_of_lineBreak (line : Nat) (pending : Bool) :
    AtEnd (layout line pending (pieces ['\n']).1).tokens := by
  rw [pieces_lineBreak]
  cases pending with
  | false => exact .inl rfl
  | true => exact .inr ⟨line, rfl⟩

theorem AtEnd.ended {ts : List Located} (h : AtEnd ts) : Ended ts := by
  rcases h with rfl | ⟨line, rfl⟩
  · exact ⟨rfl, nofun⟩
  · exact ended_cons rfl nofun

/-- A file that declares an alias for the printed text of a well-formed type is read as this one
declaration, and its type is the one that was printed, lines of struct members aside. -/
theorem ofText_print (name : String) (t : TypeExpr) (h : t.WellFormed) :
    ∃ t', SourceFile.ofText name (aliasSource t.print) = .ok (aliasFile name t') ∧
      t'.eraseLines = t.eraseLines := by
  obtain ⟨ts, hspelling⟩ := WellFormed.spelling h
  have hscans : Scans (t.print.toList ++ ['\n']) ts ['\n'] :=
    hspelling.scans (boundary_cons rfl)
  obtain ⟨hfault, q, line, pending, hq, htokens⟩ := hscans.layout_eq 2 false
  have hend : AtEnd (layout line pending (pieces ['\n']).1).tokens :=
    atEnd_of_lineBreak line pending
  obtain ⟨t', hread, herase⟩ := hspelling.reads hq ⟨rfl, hend.ended⟩
  have hpieces : pieces (t.print.toList ++ ['\n']) =
      ((pieces (t.print.toList ++ ['\n'])).1, none) := by
    rw [pieces_lineBreak] at hfault
    exact Prod.ext rfl hfault
  refine ⟨t', ?_, herase⟩
  rw [SourceFile.ofText, tokenize_aliasSource hpieces]
  dsimp only
  rw [htokens, ofTokens_alias name hread hend]

/-- A struct with a named and tagged member, an embedded instantiation, an embedded pointer and a
function that has a variadic parameter and named results. -/
def nodeType : TypeExpr :=
  .struct [
    .mk 7 ["left", "right"] (.map (.named "string") (.slice (.qualified "geo" "Node")))
      (some "json:\"n\""),
    .mk 8 [] (.generic (.named "Box") [.named "int"]) none,
    .mk 9 [] (.pointer (.named "Base")) none,
    .mk 10 ["visit"]
      (.func (.mk [.mk (some "ch") (.chan .both (.array "4" (.named "byte"))),
          .mk none (.variadic (.named "any"))]
        [.mk (some "ok") (.named "bool")] true))
      none]

/-- What `ofText_print` says of `nodeType`, with the text that is printed. -/
theorem ofText_print_nodeType :
    nodeType.WellFormed ∧
      nodeType.print = "struct\x7b left, right map[string][]geo.Node \x60json:\"n\"\x60; Box[int]; " ++
        "*Base; visit func(ch chan [4]byte, ...any) (ok bool) \x7d" ∧
      ∃ t', SourceFile.ofText "node.go" (aliasSource nodeType.print) =
        .ok (aliasFile "node.go" t') ∧ t'.eraseLines = nodeType.eraseLines := by
  have hname : ∀ w : String, Text.isIdentifier w.toList = true → isKeyword w = false →
      WellFormed (.type (.named w)) := fun _ hw hkeyword => .name (.named ⟨hw, hkeyword⟩)
  have hnode : TypeName (.qualified "geo" "Node") :=
    .qualified ⟨by decide, by decide⟩ ⟨by decide, by decide⟩
  have hsides : WellFormed (.member ["left", "right"]
      (.map (.named "string") (.slice (.qualified "geo" "Node")))) := by
    refine .namedMember nofun ?_ (.map (hname _ (by decide) (by decide)) (.slice (.name hnode)))
    intro name hmem
    rcases List.mem_cons.1 hmem with rfl | hmem
    · exact ⟨by decide, by decide⟩
    · obtain rfl := List.mem_singleton.1 hmem
      exact ⟨by decide, by decide⟩
  have hbox : WellFormed (.member [] (.generic (.named "Box") [.named "int"])) :=
    .embeddedGeneric (.named ⟨by decide, by decide⟩)
      (.lastArg (hname _ (by decide) (by decide)))
  have hvisit : WellFormed (.member ["visit"]
      (.func (.mk [.mk (some "ch") (.chan .both (.array "4" (.named "byte"))),
        .mk none (.variadic (.named "any"))] [.mk (some "ok") (.named "bool")] true))) := by
    refine .namedMember nofun ?_ (.func (.results (.namedParam ⟨by decide, by decide⟩ rfl
      (.chan (fun _ => rfl) (.array (.number (by decide) (by decide))
        (hname _ (by decide) (by decide))))
      (.variadic (hname _ (by decide) (by decide)) .noParam)) nofun
      (.namedParam ⟨by decide, by decide⟩ rfl (hname _ (by decide) (by decide)) .noParam)))
    intro name hmem
    obtain rfl := List.mem_singleton.1 hmem
    exact ⟨by decide, by decide⟩
  have htag : ∀ s ∈ some "json:\"n\"", RawTag s := by
    intro s hs
    cases hs
    exact ⟨by decide, by decide⟩
  have hwell : nodeType.WellFormed :=
    .struct (.field hsides htag (.field hbox nofun (.field
      (.embeddedPointer (hname _ (by decide) (by decide))) nofun
      (.field hvisit nofun .noField))))
  exact ⟨hwell, by decide, ofText_print "node.go" nodeType hwell⟩

end StructCopy.Go
