import Lity.Word
import Lity.Instruction
import Lity.Expression
import Lity.Matcher
import Lity.RuleList
import Lity.Rewriter
import Lity.Soundness
import Lity.Overflow
import Lity.Operands
import Lity.Termination
import Lity.Folding
import Lity.EvaluationOrder
import Lity.Driver
import Lity.SourceUnit
import Lity.AST
import Lity.Interface
import Lity.Scopable
import Lity.ASTExpression
