import Derivgrind.IR.Syntax
import Derivgrind.Bytes
import Derivgrind.Options
import Derivgrind.IR.Semantics
import Derivgrind.IR.Frame
import Derivgrind.IR.WellFormed
import Derivgrind.IR.Exact
import Derivgrind.IR.Bits
import Derivgrind.IR.Lanes
import Derivgrind.Nulgrind.ShadowMemory
import Derivgrind.Nulgrind.Instrument
import Derivgrind.Nulgrind.Frame
import Derivgrind.Nulgrind.Tangent
import Derivgrind.Nulgrind.Forward
import Derivgrind.Bar.Runtime
import Derivgrind.Bar.Instrument
import Derivgrind.Bar.Record
import Derivgrind.Bar.Frame
import Derivgrind.Bar.Agree
import Derivgrind.Bar.Index
import Derivgrind.Bar.Logical
import Derivgrind.Bar.LinExpr
import Derivgrind.Bar.LinExprOps
import Derivgrind.Bar.Normalize
import Derivgrind.Bar.Forward
import Derivgrind.Bar.Calls
import Derivgrind.Bar.Sort
