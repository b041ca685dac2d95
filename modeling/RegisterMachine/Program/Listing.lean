-- The listing of a program: a source text that assembles to it.
import RegisterMachine.Binary64.Text
import RegisterMachine.Program.Basic

namespace RegisterMachine

/-- The kind and the value of a constant, as the assembler reads them. -/
def Constant.render : Constant → String
  | .long value => s!"long {value.toInt}"
  | .float bits => s!"float {Binary64.render bits}"
  | .char value => s!"char {value.toNat}"
  | .bool value => if value then "bool true" else "bool false"

/-- The lines of the listing: the sizes, the constants, then the instructions
with their indices in comments. -/
def Program.listingLines (program : Program) : List String :=
  [s!".stack {program.header.stackSize.toNat}",
   s!".frames {program.header.frameLimit.toNat}",
   s!".globals {program.header.globalCount.toNat}"]
  ++ program.constants.toList.map (fun constant => s!".const {constant.render}")
  ++ program.instructions.toList.zipIdx.map fun (ins, index) => s!"{ins.render}    # {index}"

def Program.listing (program : Program) : String :=
  String.join (program.listingLines.map (· ++ "\n"))

end RegisterMachine
