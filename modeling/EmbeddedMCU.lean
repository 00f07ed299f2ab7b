import EmbeddedMCU.Machinery.Run
import EmbeddedMCU.Machinery.Script
import EmbeddedMCU.Machinery.Fmod
import EmbeddedMCU.Machinery.Approach
import EmbeddedMCU.Machinery.Counter
import EmbeddedMCU.Machinery.Binary32
import EmbeddedMCU.Machinery.Binary32Bits
import EmbeddedMCU.Machinery.Bytes
import EmbeddedMCU.Machinery.Ring
import EmbeddedMCU.Machinery.Blocks
import EmbeddedMCU.Machinery.Circle
import EmbeddedMCU.Machinery.SinTaylor
import EmbeddedMCU.Machinery.Hexagon
import EmbeddedMCU.Common.Log
import EmbeddedMCU.SimpleFoc.Utils
import EmbeddedMCU.SimpleFoc.SineTable
import EmbeddedMCU.SimpleFoc.SinePrecision
import EmbeddedMCU.SimpleFoc.SqrtApprox
import EmbeddedMCU.SimpleFoc.Svpwm
import EmbeddedMCU.SimpleFoc.Foc
import EmbeddedMCU.SimpleFoc.BLDCMotor
import EmbeddedMCU.SimpleFoc.DutyRange
import EmbeddedMCU.SimpleFoc.VectorRealised
import EmbeddedMCU.SimpleFoc.InversePark
import EmbeddedMCU.SimpleFoc.SectorRounded
import EmbeddedMCU.SimpleFoc.Commutation
import EmbeddedMCU.SimpleFoc.PolePairSweep
import EmbeddedMCU.SimpleFoc.Positioning
import EmbeddedMCU.SimpleFoc.PositioningRounded
import EmbeddedMCU.SimpleFoc.TimeStep
import EmbeddedMCU.SimpleFoc.Displacement
import EmbeddedMCU.SimpleFoc.ShaftRange
import EmbeddedMCU.AHRS.InvSqrt
import EmbeddedMCU.Pid.PIDCalc
import EmbeddedMCU.HardwareDriver.Bus
import EmbeddedMCU.HardwareDriver.RegisterTable
import EmbeddedMCU.HardwareDriver.Bmi088
import EmbeddedMCU.HardwareDriver.Ist8310
import EmbeddedMCU.HardwareDriver.Readings
import EmbeddedMCU.HardwareDriver.RegisterLog
import EmbeddedMCU.HardwareDriver.RegisterFile
import EmbeddedMCU.HardwareDriver.Initialisation
import EmbeddedMCU.FreeRTOS.StreamBuffer
import EmbeddedMCU.FreeRTOS.StreamBufferLossless
import EmbeddedMCU.FreeRTOS.StreamBufferWakeup
import EmbeddedMCU.FreeRTOS.Heap4
import EmbeddedMCU.FreeRTOS.Heap4List
import EmbeddedMCU.FreeRTOS.Heap4Calls
import EmbeddedMCU.FreeRTOS.Heap4Runs
import EmbeddedMCU.FreeRTOS.TaskLists
import EmbeddedMCU.FreeRTOS.List
import EmbeddedMCU.FreeRTOS.ListRefinement
import EmbeddedMCU.FreeRTOS.ListSorted
import EmbeddedMCU.FreeRTOS.ListTurns
import EmbeddedMCU.FreeRTOS.TimeOut
import EmbeddedMCU.FreeRTOS.Tasks
import EmbeddedMCU.FreeRTOS.TasksPlaces
import EmbeddedMCU.FreeRTOS.TasksWaiting
import EmbeddedMCU.FreeRTOS.TasksPriorities
import EmbeddedMCU.FreeRTOS.TasksRuns
import EmbeddedMCU.FreeRTOS.TasksTimes
