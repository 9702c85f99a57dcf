import PicoFido2.M5boards.Pm1Pins
import PicoFido2.M5boards.KeyLoss
import PicoFido2.M5boards.Registration
import PicoFido2.M5boards.AllOrNothing
import PicoFido2.M5boards.Uninitialised
import PicoFido2.M5boards.Freshness
import PicoFido2.M5boards.FirstPress
import PicoFido2.M5boards.EitherKey
import PicoFido2.M5boards.Glitches
import PicoFido2.M5boards.BringUpAgain
import PicoFido2.M5boards.TimedWait
import PicoFido2.M5boards.PressInWindow
import PicoFido2.Display.Handoff
import PicoFido2.Display.Shown
import PicoFido2.Display.Clipping
import PicoFido2.Display.Init
import PicoFido2.Fido2.Isolation
import PicoFido2.Fido2.Handles
import PicoFido2.M5boards.Semaphore
import PicoFido2.M5boards.Pm1Client
import PicoFido2.M5boards.WaitBound
import PicoFido2.Display.Packets
import PicoFido2.Fido2.Bootstrap
import PicoFido2.Fido2.OpenFiles
