import GameFrame.Http.HttpServer

/-!
# The HTTP demo

`http/http_demo_main.cpp`: an `HttpServer` with a handler that knows two pages.
The method of a request, its query and its headers make no difference to it.
-/

namespace GameFrame.HttpDemo

/-- The handler. -/
def httpCb (req : HttpRequest) (resp : HttpResponse) : HttpResponse :=
  if req.path = ascii "/" then
    { resp with
      statusCode := .k200Ok
      statusMessage := ascii "OK"
      body := ascii "Hello, epoll_proj!\n" }
  else if req.path = ascii "/hello" then
    { resp with
      statusCode := .k200Ok
      statusMessage := ascii "OK"
      body := ascii "Hello, World!\n" }
  else
    { resp with
      statusCode := .k404NotFound
      statusMessage := ascii "Not Found"
      body := ascii "404 Not Found\n" }

def server : HttpServer := { httpCb := some httpCb }

end GameFrame.HttpDemo
