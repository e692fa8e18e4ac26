namespace DspAsm

structure Layout where
  columnWidth : Nat := 16
  autoLabels : Bool := true
  labelStem : String := "L"
  deriving DecidableEq

end DspAsm
