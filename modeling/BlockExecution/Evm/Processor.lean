/-
  The processor that runs transactions on a virtual machine.
-/
import BlockExecution.Evm.Engine
import BlockExecution.Interpreter.Transact

namespace BlockExecution.Evm

/-- The processor on the interpreter. -/
def processor (config : ProcessorConfig) : Processor := Interpreter.engine.processor config

end BlockExecution.Evm
