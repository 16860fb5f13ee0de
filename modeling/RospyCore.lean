import RospyCore.Rosrpc
import RospyCore.Logging.Base
import RospyCore.Logging.Throttle
import RospyCore.Logging.Identical
import RospyCore.Xmlrpc
import RospyCore.Signals
import RospyCore.Shutdown.Contract
import RospyCore.Shutdown.Threads
import RospyCore.Shutdown.Kept
import RospyCore.Shutdown.Order
import RospyCore.Shutdown.Complete
import RospyCore.Shutdown.Register
import RospyCore.Xmlrpc.Request
import RospyCore.Logging.Once
import RospyCore.Logging.Configure
